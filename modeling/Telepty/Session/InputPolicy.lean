import Mathlib.Data.List.Induction
import Mathlib.Logic.Function.Basic
import Telepty.Infra.Sha256
import Telepty.Interaction.Request

/-!
# The input policy of a session

A session that its user supervises takes input without the gates on its screen. The policy is
requested at a registration, held as pending, and bound to the owner generation of the claim that
follows, where that claim presents the capability of the grant that the request named.

`Record` is what of a session record the policy reads and writes; `grant` is the entry of the record
in the map of the grants. `requestedAt` and `boundAt` are in milliseconds. The digest of a capability
is a parameter.
-/

namespace Telepty.Session

open Infra
open Interaction (utf16Length)

/-- `POLICIES` -/
inductive Policy where
  | userSupervised
  | guarded
  deriving DecidableEq

/-- What registration a request came with. -/
inductive Origin where
  | newInstance
  | reregistration
  deriving DecidableEq

/-- `inputPolicyPending` -/
structure Pending where
  policy : Policy
  source : Text
  requestedAt : Nat
  origin : Origin
  grantAttempt : Option Text
  deriving DecidableEq

/-- `inputPolicy` -/
structure BoundPolicy where
  policy : Policy
  ownerGeneration : Text
  source : Text
  boundAt : Nat
  deriving DecidableEq

structure Grant (δ : Type) where
  digest : δ
  attempt : Text
  sessionEpoch : Option Text
  credentialGeneration : Nat
  boundOwnerGeneration : Option Text
  deriving DecidableEq

structure Record (δ : Type) where
  /-- `type === 'wrapped'` -/
  wrapped : Bool
  sshRemote : Bool
  externalApprovalPolicy : Bool
  sessionEpoch : Option Text
  credentialGeneration : Option Nat
  interactionOwnerGeneration : Option Text
  inputPolicyPending : Option Pending
  inputPolicy : Option BoundPolicy
  supervisionRestorable : Bool
  grant : Option (Grant δ)
  deriving DecidableEq

variable {δ : Type} [DecidableEq δ] (digest : Text → δ)

/-- `session.sessionEpoch || null` -/
def Record.epochOrNull (r : Record δ) : Option Text := r.sessionEpoch.filter (· ≠ [])

/-- `Number(session.credentialGeneration) || 1` -/
def Record.generationOrOne (r : Record δ) : Nat :=
  match r.credentialGeneration with
  | none | some 0 => 1
  | some n => n

/-- `currentGrant(session)`, and the record after it. -/
def currentGrant (r : Record δ) : Option (Grant δ) × Record δ :=
  match r.grant with
  | none => (none, r)
  | some g =>
    if g.sessionEpoch ≠ r.epochOrNull ∨ g.credentialGeneration ≠ r.generationOrOne then
      (none, { r with grant := none })
    else (some g, r)

/-- `mintInputPolicyCapability(session)`, with the random capability and attempt. -/
def mintInputPolicyCapability (capability attempt : Text) (r : Record δ) : Record δ :=
  { r with grant := some ⟨digest capability, attempt, r.epochOrNull, r.generationOrOne, none⟩ }

/-- `verifyInputPolicyCapability(session, presented)`, where `presented` is `none` when it is no
string. -/
def verifyInputPolicyCapability (presented : Option Text) (r : Record δ) :
    Option (Grant δ) × Record δ :=
  match currentGrant r, presented with
  | (some g, r), some p =>
    if utf16Length p < 16 ∨ 256 < utf16Length p then (none, r)
    else if digest p = g.digest then (some g, r)
    else (none, r)
  | (_, r), _ => (none, r)

/-- `revokeInputPolicyCapability(session)` -/
def revokeInputPolicyCapability (r : Record δ) : Record δ := { r with grant := none }

/-- `requestInputPolicy(record, policy, source, now, { origin })` -/
def requestInputPolicy (policy : Policy) (source : Text) (now : Nat) (origin : Origin)
    (r : Record δ) : Record δ :=
  match policy with
  | .userSupervised =>
    let (grant, r) := currentGrant r
    { r with
      inputPolicyPending := some ⟨policy, source, now, origin, grant.map (·.attempt)⟩
      supervisionRestorable := true }
  | .guarded =>
    { revokeInputPolicyCapability { r with inputPolicyPending := none, inputPolicy := none } with
      supervisionRestorable := false }

/-- What the claim of `bindInputPolicy` proved. `claim` is `none` where the caller passes none, else
the presented capability. -/
def proveClaim (pending : Option Pending) (claim : Option (Option Text)) (r : Record δ) :
    Bool × Record δ :=
  match claim with
  | none => (pending.any fun p => p.origin = .newInstance, r)
  | some presented =>
    let (verified, r) := verifyInputPolicyCapability digest presented r
    (verified.isSome, r)

/-- `bindInputPolicy(session, now, claim)`, and whether the session moved from supervised to guarded. -/
def bindInputPolicy (now : Nat) (claim : Option (Option Text)) (r : Record δ) : Bool × Record δ :=
  let wasSupervised := r.inputPolicy.any fun p => p.policy = .userSupervised
  let pending := r.inputPolicyPending
  let (grant, r) := currentGrant r
  let (proved, r) := proveClaim digest pending claim r
  match pending, grant, r.interactionOwnerGeneration with
  | some p, some g, some owner =>
    if p.policy = .userSupervised ∧ proved ∧ p.grantAttempt = some g.attempt then
      (false, { r with
        inputPolicyPending := none
        inputPolicy := some ⟨.userSupervised, owner, p.source, now⟩
        grant := some { g with boundOwnerGeneration := some owner } })
    else (wasSupervised, { r with inputPolicy := none })
  | some _, _, _ => (wasSupervised, { r with inputPolicy := none })
  | none, _, _ => (wasSupervised, { r with inputPolicyPending := none, inputPolicy := none })

/-- `userSupervised(session)` -/
def userSupervised (r : Record δ) : Bool :=
  match r.inputPolicy with
  | none => false
  | some p => p.policy = .userSupervised && r.wrapped && !r.sshRemote && !r.externalApprovalPolicy &&
      r.interactionOwnerGeneration = some p.ownerGeneration

/-! ## Runs -/

inductive Event where
  /-- `mintInputPolicyCapability` -/
  | mint (capability attempt : Text)
  /-- `requestInputPolicy` -/
  | request (policy : Policy) (source : Text) (now : Nat) (origin : Origin)
  /-- an owner claim: a new owner generation, then `bindInputPolicy` -/
  | claim (ownerGeneration : Text) (presented : Option Text) (now : Nat)
  | epoch (sessionEpoch : Option Text)
  | generation (credentialGeneration : Option Nat)
  | revoke

/-- The owner claim of `websocket.js`. -/
def ownerClaim (ownerGeneration : Text) (presented : Option Text) (now : Nat) (r : Record δ) :
    Record δ :=
  (bindInputPolicy digest now (some presented)
    { r with interactionOwnerGeneration := some ownerGeneration }).2

def step (r : Record δ) : Event → Record δ
  | .mint capability attempt => mintInputPolicyCapability digest capability attempt r
  | .request policy source now origin => requestInputPolicy policy source now origin r
  | .claim ownerGeneration presented now => ownerClaim digest ownerGeneration presented now r
  | .epoch sessionEpoch => { r with sessionEpoch := sessionEpoch }
  | .generation credentialGeneration => { r with credentialGeneration := credentialGeneration }
  | .revoke => revokeInputPolicyCapability r

def run (r : Record δ) (events : List Event) : Record δ := events.foldl (step digest) r

/-- A record that was just made: nothing was granted, requested or bound. -/
structure Record.New (r : Record δ) : Prop where
  pending : r.inputPolicyPending = none
  policy : r.inputPolicy = none
  grant : r.grant = none

/-! ## What the operations do -/

section

variable {digest}
variable {r : Record δ} {g : Grant δ}

omit [DecidableEq δ] in
/-- A grant that is current is the entry of the record, for its epoch and its generation. -/
theorem currentGrant_eq_some (h : (currentGrant r).1 = some g) :
    r.grant = some g ∧ g.sessionEpoch = r.epochOrNull ∧
      g.credentialGeneration = r.generationOrOne ∧ (currentGrant r).2 = r := by
  unfold currentGrant at *
  split at h
  · cases h
  · next g' hg =>
    split at h
    · cases h
    · next hc =>
      cases h
      rw [not_or, not_ne_iff, not_ne_iff] at hc
      exact ⟨hg, hc.1, hc.2, by rw [if_neg (by simp [hc])]⟩

omit [DecidableEq δ] in
/-- Reading the grant changes nothing but that it drops an old one. -/
theorem currentGrant_snd (r : Record δ) :
    (currentGrant r).2 = r ∨ (currentGrant r).1 = none ∧ (currentGrant r).2 = { r with grant := none } := by
  unfold currentGrant
  split
  · exact .inl rfl
  · split
    · exact .inr ⟨rfl, rfl⟩
    · exact .inl rfl

theorem verify_eq_some {presented : Option Text}
    (h : (verifyInputPolicyCapability digest presented r).1 = some g) :
    (currentGrant r).1 = some g ∧ ∃ c, presented = some c ∧ digest c = g.digest := by
  unfold verifyInputPolicyCapability at h
  split at h
  · next g' r' c hc =>
    split at h
    · cases h
    · split at h
      · next hd =>
        cases h
        exact ⟨by rw [hc], c, rfl, hd⟩
      · cases h
  · cases h

theorem verify_snd (presented : Option Text) :
    (verifyInputPolicyCapability digest presented r).2 = (currentGrant r).2 := by
  unfold verifyInputPolicyCapability
  split
  · next hc =>
    rw [hc]
    split
    · rfl
    · split <;> rfl
  · next hc _ => rw [hc]

/-- The claim bound the pending request `p` by the capability of the current grant `g`. -/
structure Binds (digest : Text → δ) (presented : Option Text) (r : Record δ) (p : Pending)
    (g : Grant δ) : Prop where
  pending : r.inputPolicyPending = some p
  supervised : p.policy = .userSupervised
  current : (currentGrant r).1 = some g
  presented : ∃ c, presented = some c ∧ digest c = g.digest
  named : p.grantAttempt = some g.attempt

omit [DecidableEq δ] in
/-- Reading the grant leaves the entry or drops it. -/
theorem currentGrant_dropped (r : Record δ) :
    ∃ grant, (grant = r.grant ∨ grant = none) ∧ (currentGrant r).2 = { r with grant := grant } := by
  rcases currentGrant_snd r with h | ⟨-, h⟩
  · exact ⟨r.grant, .inl rfl, h⟩
  · exact ⟨none, .inr rfl, h⟩

variable (digest) in
/-- **`bindInputPolicy` of a claim** binds the pending request, or leaves the session guarded and the
request where it is. -/
theorem bindInputPolicy_cases {owner : Text} (ho : r.interactionOwnerGeneration = some owner)
    (presented : Option Text) (now : Nat) :
    (∃ p g, Binds digest presented r p g ∧
      (bindInputPolicy digest now (some presented) r).2 = { r with
        inputPolicyPending := none
        inputPolicy := some ⟨.userSupervised, owner, p.source, now⟩
        grant := some { g with boundOwnerGeneration := some owner } }) ∨
    ∃ grant, (grant = r.grant ∨ grant = none) ∧
      (bindInputPolicy digest now (some presented) r).2
        = { r with inputPolicy := none, grant := grant } := by
  obtain ⟨grant₁, hg₁, h₁⟩ := currentGrant_dropped r
  obtain ⟨grant₂, hg₂, h₂⟩ := currentGrant_dropped (currentGrant r).2
  have hv : (verifyInputPolicyCapability digest presented (currentGrant r).2).2
      = { r with grant := grant₂ } := by
    rw [verify_snd, h₂, h₁]
  have hgrant : grant₂ = r.grant ∨ grant₂ = none := by
    rcases hg₂ with rfl | rfl
    · rw [h₁]
      exact hg₁
    · exact .inr rfl
  obtain ⟨wrapped, ssh, approval, epoch, generation, ownerGeneration, pending, policy, restorable,
    entry⟩ := r
  dsimp only at ho
  subst ho
  unfold bindInputPolicy proveClaim
  dsimp only
  rw [hv]
  cases pending with
  | none => exact .inr ⟨grant₂, hgrant, rfl⟩
  | some p =>
    cases hg : (currentGrant (Record.mk wrapped ssh approval epoch generation (some owner) (some p)
        policy restorable entry)).1 with
    | none => exact .inr ⟨grant₂, hgrant, rfl⟩
    | some g =>
      dsimp only
      split
      · next hc =>
        obtain ⟨hsup, hproved, hnamed⟩ := hc
        obtain ⟨g', hg'⟩ := Option.isSome_iff_exists.mp hproved
        obtain ⟨hcur, hpres⟩ := verify_eq_some hg'
        obtain ⟨-, -, -, hsame⟩ := currentGrant_eq_some hg
        rw [hsame, hg] at hcur
        cases hcur
        exact .inl ⟨p, g, ⟨rfl, hsup, hg, hpres, hnamed⟩, rfl⟩
      · exact .inr ⟨grant₂, hgrant, rfl⟩

omit [DecidableEq δ] in
theorem currentGrant_owner (r : Record δ) (owner : Option Text) :
    (currentGrant { r with interactionOwnerGeneration := owner }).1 = (currentGrant r).1 := by
  obtain ⟨_, _, _, _, _, _, _, _, _, grant⟩ := r
  cases grant with
  | none => rfl
  | some g =>
    simp only [currentGrant, apply_ite Prod.fst]
    rfl

variable (digest) in
/-- **An owner claim** binds the pending request, or leaves the session guarded and the request where
it is. -/
theorem ownerClaim_cases (owner : Text) (presented : Option Text) (now : Nat) (r : Record δ) :
    (∃ p g, Binds digest presented r p g ∧
      ownerClaim digest owner presented now r = { r with
        interactionOwnerGeneration := some owner
        inputPolicyPending := none
        inputPolicy := some ⟨.userSupervised, owner, p.source, now⟩
        grant := some { g with boundOwnerGeneration := some owner } }) ∨
    ∃ grant, (grant = r.grant ∨ grant = none) ∧
      ownerClaim digest owner presented now r = { r with
        interactionOwnerGeneration := some owner
        inputPolicy := none
        grant := grant } := by
  rcases bindInputPolicy_cases digest
    (r := { r with interactionOwnerGeneration := some owner }) rfl presented now with
    ⟨p, g, hb, h⟩ | h
  · refine .inl ⟨p, g, ⟨hb.pending, hb.supervised, ?_, hb.presented, hb.named⟩, h⟩
    rw [← currentGrant_owner r (some owner)]
    exact hb.current
  · exact .inr h

/-! ## Where a policy comes from -/

def Event.isRequest : Event → Bool
  | .request .. => true
  | _ => false

def Event.isClaim : Event → Bool
  | .claim .. => true
  | _ => false

def Event.isGuarded : Event → Bool
  | .request .guarded .. => true
  | _ => false

/-- The pending request after `events`: a request for supervision that named the attempt of the grant
that was current at it, without a later request of either policy and without a later claim that bound
it. -/
def Requested (digest : Text → δ) (r : Record δ) (events : List Event) (attempt : Option Text) : Prop :=
  ∃ asked source now origin since,
    events = asked ++ .request .userSupervised source now origin :: since ∧
    attempt = (currentGrant (run digest r asked)).1.map (·.attempt) ∧
    (∀ e ∈ since, e.isRequest = false) ∧
    ∀ mid owner presented now' rest, since = mid ++ .claim owner presented now' :: rest →
      (run digest r (asked ++ .request .userSupervised source now origin ::
        (mid ++ [.claim owner presented now']))).inputPolicy = none

/-- A claim after `events` with the capability `presented` is proved: it is the capability that a grant
was minted with, the grant is current for the epoch and the generation of the record, and the pending
request named its attempt. -/
structure Proved (digest : Text → δ) (r : Record δ) (events : List Event) (presented : Option Text) :
    Prop where
  granted : ∃ older capability attempt newer g, events = older ++ .mint capability attempt :: newer ∧
    presented = some capability ∧ (currentGrant (run digest r events)).1 = some g ∧
    g.attempt = attempt ∧ Requested digest r events (some attempt)

/-- The policy after `events` was bound by their last claim, for the owner generation `owner`. -/
def BoundBy (digest : Text → δ) (r : Record δ) (events : List Event) (owner : Text) : Prop :=
  ∃ before presented now after, events = before ++ .claim owner presented now :: after ∧
    (∀ e ∈ after, e.isClaim = false ∧ e.isGuarded = false) ∧
    Proved digest r before presented

/-- Where the grant, the pending request and the policy of a record come from. -/
structure Traced (digest : Text → δ) (r : Record δ) (events : List Event) : Prop where
  grant : ∀ g, (run digest r events).grant = some g →
    ∃ older capability newer, events = older ++ .mint capability g.attempt :: newer ∧
      g.digest = digest capability
  pending : ∀ p, (run digest r events).inputPolicyPending = some p →
    p.policy = .userSupervised ∧ Requested digest r events p.grantAttempt
  policy : ∀ p, (run digest r events).inputPolicy = some p →
    p.policy = .userSupervised ∧ BoundBy digest r events p.ownerGeneration

variable (digest) in
theorem run_concat (r : Record δ) (events : List Event) (e : Event) :
    run digest r (events ++ [e]) = step digest (run digest r events) e := by
  rw [run, List.foldl_append]
  rfl

theorem Requested.concat {events : List Event} {attempt : Option Text}
    (h : Requested digest r events attempt) {e : Event} (hr : e.isRequest = false)
    (hc : e.isClaim = true → (run digest r (events ++ [e])).inputPolicy = none) :
    Requested digest r (events ++ [e]) attempt := by
  obtain ⟨asked, source, now, origin, since, rfl, hattempt, hreq, hclaims⟩ := h
  refine ⟨asked, source, now, origin, since ++ [e], by simp, hattempt, fun x hx => ?_,
    fun mid owner presented now' rest heq => ?_⟩
  · rcases List.mem_append.mp hx with hx | hx
    · exact hreq x hx
    · rw [List.mem_singleton.mp hx]
      exact hr
  · rcases rest.eq_nil_or_concat with rfl | ⟨rest, last, rfl⟩
    · obtain ⟨rfl, he⟩ := List.append_inj' heq rfl
      rw [List.singleton_inj] at he
      subst he
      have := hc rfl
      rwa [List.append_assoc, List.cons_append] at this
    · rw [List.concat_eq_append, ← List.cons_append, ← List.append_assoc] at heq
      exact hclaims mid owner presented now' rest (List.append_inj' heq rfl).1

theorem BoundBy.concat {events : List Event} {owner : Text} (h : BoundBy digest r events owner)
    {e : Event} (hc : e.isClaim = false) (hg : e.isGuarded = false) :
    BoundBy digest r (events ++ [e]) owner := by
  obtain ⟨before, presented, now, after, rfl, hafter, hproved⟩ := h
  refine ⟨before, presented, now, after ++ [e], by simp, fun x hx => ?_, hproved⟩
  rcases List.mem_append.mp hx with hx | hx
  · exact hafter x hx
  · rw [List.mem_singleton.mp hx]
    exact ⟨hc, hg⟩

/-- Of a record that an event leaves but for the grant, which it may drop, all is where it was. -/
theorem Traced.keep {events : List Event} (h : Traced digest r events) {e : Event}
    (hr : e.isRequest = false) (hc : e.isClaim = false)
    (hgrant : (run digest r (events ++ [e])).grant = (run digest r events).grant ∨
      (run digest r (events ++ [e])).grant = none)
    (hpending : (run digest r (events ++ [e])).inputPolicyPending
      = (run digest r events).inputPolicyPending)
    (hpolicy : (run digest r (events ++ [e])).inputPolicy = (run digest r events).inputPolicy) :
    Traced digest r (events ++ [e]) := by
  have hg : e.isGuarded = false := by
    cases e with
    | request => cases hr
    | _ => rfl
  refine ⟨fun g heq => ?_, fun p heq => ?_, fun p heq => ?_⟩
  · rcases hgrant with hgrant | hgrant
    · rw [hgrant] at heq
      obtain ⟨older, capability, newer, he, hd⟩ := h.grant g heq
      exact ⟨older, capability, newer ++ [e], by rw [he]; simp, hd⟩
    · rw [hgrant] at heq
      cases heq
  · rw [hpending] at heq
    obtain ⟨hs, hreq⟩ := h.pending p heq
    exact ⟨hs, hreq.concat hr fun h => by rw [hc] at h; cases h⟩
  · rw [hpolicy] at heq
    obtain ⟨hs, hb⟩ := h.policy p heq
    exact ⟨hs, hb.concat hc hg⟩

theorem Traced.claim (hd : Function.Injective digest) {events : List Event}
    (h : Traced digest r events) (owner : Text) (presented : Option Text) (now : Nat) :
    Traced digest r (events ++ [.claim owner presented now]) := by
  have hrun := run_concat digest r events (.claim owner presented now)
  rcases ownerClaim_cases digest owner presented now (run digest r events) with
    ⟨p, g, hb, hs⟩ | ⟨grant, hgrant, hs⟩
  · replace hrun := hrun.trans hs
    obtain ⟨hentry, -, -, -⟩ := currentGrant_eq_some hb.current
    obtain ⟨older, capability, newer, he, hdig⟩ := h.grant g hentry
    refine ⟨fun g' heq => ?_, fun p' heq => ?_, fun p' heq => ?_⟩
    · rw [hrun] at heq
      cases heq
      exact ⟨older, capability, newer ++ [.claim owner presented now], by rw [he]; simp, hdig⟩
    · rw [hrun] at heq
      cases heq
    · rw [hrun] at heq
      cases heq
      refine ⟨rfl, events, presented, now, [], rfl, fun x hx => absurd hx List.not_mem_nil, ?_⟩
      obtain ⟨c, hc, hcd⟩ := hb.presented
      have hcap : c = capability := hd (hcd.trans hdig)
      subst hcap
      have hreq := (h.pending p hb.pending).2
      rw [hb.named] at hreq
      exact ⟨older, c, g.attempt, newer, g, he, hc, hb.current, rfl, hreq⟩
  · replace hrun := hrun.trans hs
    refine ⟨fun g heq => ?_, fun p heq => ?_, fun p heq => ?_⟩
    · rw [hrun] at heq
      rcases hgrant with rfl | rfl
      · obtain ⟨older, capability, newer, he, hdig⟩ := h.grant g heq
        exact ⟨older, capability, newer ++ [.claim owner presented now], by rw [he]; simp, hdig⟩
      · cases heq
    · rw [hrun] at heq
      obtain ⟨hsup, hreq⟩ := h.pending p heq
      exact ⟨hsup, hreq.concat rfl fun _ => by rw [hrun]⟩
    · rw [hrun] at heq
      cases heq

/-- **One event** leaves everything traced. -/
theorem Traced.step (hd : Function.Injective digest) {events : List Event}
    (h : Traced digest r events) (e : Event) : Traced digest r (events ++ [e]) := by
  have hrun := run_concat digest r events e
  cases e with
  | mint capability attempt =>
    refine ⟨fun g heq => ?_, fun p heq => ?_, fun p heq => ?_⟩
    · rw [hrun] at heq
      cases heq
      exact ⟨events, capability, [], rfl, rfl⟩
    · rw [hrun] at heq
      obtain ⟨hs, hreq⟩ := h.pending p heq
      exact ⟨hs, hreq.concat rfl fun h => by cases h⟩
    · rw [hrun] at heq
      obtain ⟨hs, hb⟩ := h.policy p heq
      exact ⟨hs, hb.concat rfl rfl⟩
  | request policy source now origin =>
    cases policy with
    | userSupervised =>
      obtain ⟨grant, hgrant, hcur⟩ := currentGrant_dropped (run digest r events)
      have hs : run digest r (events ++ [.request .userSupervised source now origin])
          = { run digest r events with
              grant := grant
              inputPolicyPending := some ⟨.userSupervised, source, now, origin,
                (currentGrant (run digest r events)).1.map (·.attempt)⟩
              supervisionRestorable := true } := by
        rw [hrun, Session.step, requestInputPolicy]
        dsimp only
        rw [hcur]
      refine ⟨fun g heq => ?_, fun p heq => ?_, fun p heq => ?_⟩
      · rw [hs] at heq
        rcases hgrant with rfl | rfl
        · obtain ⟨older, capability, newer, he, hdig⟩ := h.grant g heq
          exact ⟨older, capability, newer ++ [.request .userSupervised source now origin],
            by rw [he]; simp, hdig⟩
        · cases heq
      · rw [hs] at heq
        cases heq
        exact ⟨rfl, events, source, now, origin, [], rfl, rfl,
          fun x hx => absurd hx List.not_mem_nil, fun mid _ _ _ _ hm => by
            cases mid <;> cases hm⟩
      · rw [hs] at heq
        obtain ⟨hsup, hb⟩ := h.policy p heq
        exact ⟨hsup, hb.concat rfl rfl⟩
    | guarded =>
      refine ⟨fun g heq => ?_, fun p heq => ?_, fun p heq => ?_⟩ <;>
      · rw [hrun] at heq
        cases heq
  | claim owner presented now => exact h.claim hd owner presented now
  | epoch | generation =>
    refine h.keep rfl rfl (.inl ?_) ?_ ?_ <;>
    · rw [hrun]
      rfl
  | revoke =>
    refine h.keep rfl rfl (.inr ?_) ?_ ?_ <;>
    · rw [hrun]
      rfl

theorem Record.New.traced (hd : Function.Injective digest) (hr : r.New) (events : List Event) :
    Traced digest r events := by
  induction events using List.reverseRecOn with
  | nil =>
    refine ⟨fun g heq => ?_, fun p heq => ?_, fun p heq => ?_⟩
    · rw [show (run digest r []).grant = none from hr.grant] at heq
      cases heq
    · rw [show (run digest r []).inputPolicyPending = none from hr.pending] at heq
      cases heq
    · rw [show (run digest r []).inputPolicy = none from hr.policy] at heq
      cases heq
  | append_singleton events e ih => exact ih.step hd e

end

/-- **Supervised input needs a proved claim.** Whenever the user supervises the session, the policy was
bound by the last claim, for the owner generation the record has, no guarded request came after it,
and the claim was proved. A claim without a fresh request leaves the session guarded. -/
theorem supervised_of_proved_claim (hd : Function.Injective digest) (r : Record δ) (hr : r.New)
    (events : List Event) :
    (userSupervised (run digest r events) = true → ∃ owner,
      (run digest r events).interactionOwnerGeneration = some owner ∧
        BoundBy digest r events owner) ∧
    ∀ owner presented now, (∀ attempt, ¬ Requested digest r events attempt) →
      userSupervised (run digest r (events ++ [.claim owner presented now])) = false := by
  have hsup : ∀ {s : Record δ}, userSupervised s = true →
      ∃ p, s.inputPolicy = some p ∧ s.interactionOwnerGeneration = some p.ownerGeneration := by
    intro s hs
    unfold userSupervised at hs
    split at hs
    · cases hs
    · next p hp =>
      simp only [Bool.and_eq_true, decide_eq_true_eq] at hs
      exact ⟨p, hp, hs.2⟩
  refine ⟨fun h => ?_, fun owner presented now hnone => ?_⟩
  · obtain ⟨p, hp, howner⟩ := hsup h
    exact ⟨p.ownerGeneration, howner, ((hr.traced hd events).policy p hp).2⟩
  · rw [Bool.eq_false_iff]
    intro h
    obtain ⟨p, hp, -⟩ := hsup h
    rw [run_concat] at hp
    rcases ownerClaim_cases digest owner presented now (run digest r events) with
      ⟨q, g, hb, -⟩ | ⟨grant, -, hs⟩
    · exact hnone _ ((hr.traced hd events).pending q hb.pending).2
    · rw [Session.step, hs] at hp
      cases hp

def launchCapability : Text := "AAAAAAAAAAAAAAAAAAAAAAAAAAAAAAAAAAAAAAAAAAA"

/-- SHA-256 at the capability of the launch, and longer lists elsewhere. -/
def launchDigest (t : Text) : List Nat :=
  if t = launchCapability then Sha256.digest (encodeText t)
  else List.replicate 33 0 ++ t.map Char.toNat

theorem launchDigest_injective : Function.Injective launchDigest := by
  intro s t h
  have hlong : ∀ u : Text, (List.replicate 33 0 ++ u.map Char.toNat).length ≠ 32 := fun u => by
    rw [List.length_append, List.length_replicate]
    omega
  unfold launchDigest at h
  split at h
  · next hs =>
    split at h
    · next ht => rw [hs, ht]
    · exact absurd ((congrArg List.length h).symm.trans (Sha256.length_digest _)) (hlong t)
  · split at h
    · exact absurd ((congrArg List.length h).trans (Sha256.length_digest _)) (hlong s)
    · exact List.map_injective_iff.mpr (fun _ _ => Char.toNat_inj.mp) (List.append_cancel_left h)

/-- A wrapped session at its registration. -/
def launched : Record (List Nat) where
  wrapped := true
  sshRemote := false
  externalApprovalPolicy := false
  sessionEpoch := some ['e']
  credentialGeneration := some 1
  interactionOwnerGeneration := none
  inputPolicyPending := none
  inputPolicy := none
  supervisionRestorable := false
  grant := none

/-- The registration of a supervised session and the claim of its host. -/
def launchEvents : List Event :=
  [.mint launchCapability ['a'], .request .userSupervised ['r'] 5 .newInstance,
    .claim ['g'] (some launchCapability) 6]

theorem supervised_of_proved_claim_launch :
    userSupervised (run launchDigest launched launchEvents) = true ∧
      ∃ owner, (run launchDigest launched launchEvents).interactionOwnerGeneration = some owner ∧
        BoundBy launchDigest launched launchEvents owner := by
  have h : userSupervised (run launchDigest launched launchEvents) = true := by decide +kernel
  exact ⟨h, (supervised_of_proved_claim launchDigest launchDigest_injective launched ⟨rfl, rfl, rfl⟩
    launchEvents).1 h⟩

end Telepty.Session
