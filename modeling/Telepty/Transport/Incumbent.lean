import Telepty.Transport.Lobby
import Telepty.Transport.Objects

/-!
# The incumbent of a record

A claim that is refused is meant to leave whoever owns the record as it was, and one that was saved but
reported as failed to leave the record without an owner, until a claim completes.

The way back restores the members of the record. The interaction provider of the incumbent was disposed
of before; a strict owner that is turned away at either end of the handler keeps its heartbeat and, at
the far end, the record; and a bridge whose socket is still there takes a free slot with its next frame.
-/

namespace Telepty.Registry

open Infra

/-! ## How a connection ends -/

inductive Outcome where
  /-- a strict owner whose binding is not current -/
  | stale
  | closing
  | unproved
  /-- a claim whose write failed before its commit -/
  | unsaved
  /-- a claim whose write failed after its commit -/
  | detached
  /-- a strict claim that was saved, and whose binding is not current any more -/
  | stranded
  | owner
  | viewer
  deriving DecidableEq

namespace Outcome

def refused : Outcome → Bool
  | .stale | .closing | .unproved | .unsaved | .stranded => true
  | .detached | .owner | .viewer => false

/-- What the outcome of a claim says of its write and of the binding of its strict owner. -/
def ComesOf (saved : Saved) (binds : Bool) : Outcome → Prop
  | .unsaved => saved = .failed false
  | .detached => saved = .failed true
  | .stranded => saved = .ok ∧ binds = false
  | .owner => saved = .ok ∧ binds = true
  | .stale | .closing | .unproved | .viewer => True

/-- The record that the outcome leaves, from the one that was there and what a claim makes of it;
`existing` says whether it was there before the connection. -/
def record (existing : Bool) (r claimed : SessionRecord) : Outcome → Option SessionRecord
  | .owner | .stranded => some claimed
  | .detached => some { claimed with ownerWs := none }
  | .unsaved => if existing then some (rolledBack r claimed) else none
  | .stale | .closing | .unproved | .viewer => some r

/-- Who owns the record that the outcome leaves. -/
theorem owner_record {existing : Bool} {r claimed r' : SessionRecord} {ws : Nat} {o : Outcome}
    (hclaimed : claimed.ownerWs = some ws) (h : o.record existing r claimed = some r') :
    r'.ownerWs = if o = .owner ∨ o = .stranded then some ws
      else if o = .detached then none else r.ownerWs := by
  cases o with
  | owner | stranded =>
    cases h
    exact hclaimed
  | detached =>
    cases h
    rfl
  | unsaved =>
    rw [record] at h
    split at h
    · cases h
      rfl
    · cases h
  | stale | closing | unproved | viewer =>
    cases h
    rfl

end Outcome

namespace Lobby

/-- How the connection ends that has come to the gate of the owner claim. -/
def verdict (host : Host) (uuid : Nat → Text) (ws : Nat) (a : Arrival) (held proved : Bool)
    (r : SessionRecord) (l : Lobby) : Outcome :=
  let claims := a.handshake.owner
  if r.hasType "wrapped" && claims && held && !proved then .unproved
  else if r.hasType "wrapped" && (r.ownerWs.isNone || claims) && (!held || proved) then
    match a.saved with
    | .ok => if l.binds host uuid ws a r then .owner else .stranded
    | .failed true => .detached
    | .failed false => .unsaved
  else .viewer

/-- How the connection ends that has come to the record. -/
def standing (host : Host) (uuid : Nat → Text) (ws : Nat) (a : Arrival) (r : SessionRecord)
    (l : Lobby) : Outcome :=
  if r.isClosing then .closing
  else
    let held := l.gate.reg.index.hasCredential a.sessionId
    let proved := held && l.gate.reg.index.matchesSid host.digest a.sessionId a.bearer
    l.verdict host uuid ws a held proved r

/-- The connection claims the record that it has come to. -/
def claims (host : Host) (a : Arrival) (r : SessionRecord) (l : Lobby) : Bool :=
  !r.isClosing && r.hasType "wrapped" && (r.ownerWs.isNone || a.handshake.owner) &&
    (!l.gate.reg.index.hasCredential a.sessionId ||
      l.gate.reg.index.matchesSid host.digest a.sessionId a.bearer)

/-- The socket is counted as a client of the record, and its heartbeat runs. -/
def entered (a : Arrival) (l : Lobby) : Lobby :=
  let object := l.gate.objects a.sessionId
  let f := l.fittings object
  { l.fit object { f with clients := f.clients ++ [l.gate.connected] } with
    gate := { l.gate with connected := l.gate.connected + 1 }
    pinging := l.pinging ++ [l.gate.connected] }

/-- How the connection to the record ends. -/
def outcome (host : Host) (uuid : Nat → Text) (a : Arrival) (r : SessionRecord) (l : Lobby) : Outcome :=
  if l.admits a then (l.entered a).standing host uuid l.gate.connected a r else .stale

/-- The provider of the record object has not been disposed of. -/
def usable (object : Text × Nat) (l : Lobby) : Bool :=
  (l.fittings object).interactionProvider.any fun p => p ∉ l.disposed

section

variable {host : Host} {uuid : Nat → Text} {ws : Nat} {a : Arrival} {existing held proved : Bool}
  {r : SessionRecord} {l : Lobby}

/-- What a connection that has come to the record makes of the lobby, by how it ends. -/
def ended (host : Host) (uuid : Nat → Text) (ws : Nat) (a : Arrival) (existing held proved : Bool)
    (r : SessionRecord) (l : Lobby) : Outcome → Lobby
  | .stale | .closing =>
    { l.leave ws (l.gate.objects a.sessionId) with gate := l.gate.turnAway ws a.handshake }
  | .unproved =>
    { l.leave ws (l.gate.objects a.sessionId) with
      gate := (l.gate.note [.unproved ws]).turnAway ws a.handshake }
  | .viewer =>
    { l with
      gate := (if !held || proved then l.gate else l.gate.note [.unproved ws]).attach ws a.handshake }
  | .unsaved | .detached | .stranded | .owner => l.claim host uuid ws a existing held proved r

theorem pass_eq : l.pass host uuid ws a existing held proved r =
    l.ended host uuid ws a existing held proved r (l.verdict host uuid ws a held proved r) := by
  unfold pass verdict
  dsimp only
  split
  · next hunproved =>
    have hmay : (!held || proved) = false := by
      simp only [Bool.and_eq_true, Bool.not_eq_true'] at hunproved
      rw [hunproved.1.2, hunproved.2]
      rfl
    rw [hmay]
    rfl
  · split
    · next hclaims =>
      simp only [Bool.and_eq_true] at hclaims
      rw [if_pos hclaims.2]
      cases a.saved with
      | ok =>
        dsimp only
        split <;> rfl
      | failed committed => cases committed <;> rfl
    · rfl

theorem attend_eq (hheld : l.gate.reg.index.hasCredential a.sessionId = held)
    (hproved : (held && l.gate.reg.index.matchesSid host.digest a.sessionId a.bearer) = proved) :
    l.attend host uuid ws a existing r =
      l.ended host uuid ws a existing held proved r (l.standing host uuid ws a r) := by
  unfold attend standing
  dsimp only
  rw [hheld, hproved]
  split
  · rfl
  · exact pass_eq

variable (host uuid) in
theorem arrive_eq (hget : l.gate.reg.sessions.get? a.sessionId = some r) (hadmits : l.admits a = true) :
    l.arrive host uuid a = (l.entered a).attend host uuid l.gate.connected a true r := by
  unfold arrive
  dsimp only
  rw [hadmits, if_pos rfl, hget]
  rfl

variable (host uuid ws a r l) in
/-- How the write of a claim ended, and whether the strict owner is bound. -/
theorem standing_comesOf : (l.standing host uuid ws a r).ComesOf a.saved
    (l.binds host uuid ws a r) := by
  unfold standing
  split
  · trivial
  · dsimp only
    unfold verdict
    dsimp only
    split
    · trivial
    · split
      · cases hsaved : a.saved with
        | ok =>
          dsimp only
          cases hbinds : l.binds host uuid ws a r with
          | true => exact ⟨rfl, rfl⟩
          | false => exact ⟨rfl, rfl⟩
        | failed committed => cases committed <;> rfl
      · trivial

/-- How a claim ends. -/
theorem standing_of_claims (h : l.claims host a r = true) : l.standing host uuid ws a r =
    match a.saved with
    | .ok => if l.binds host uuid ws a r then .owner else .stranded
    | .failed true => .detached
    | .failed false => .unsaved := by
  simp only [claims, Bool.and_eq_true, Bool.not_eq_true'] at h
  obtain ⟨⟨⟨hopen, hwrapped⟩, hslot⟩, hproved⟩ := h
  unfold standing verdict
  dsimp only
  rw [if_neg (by rw [hopen]; exact Bool.false_ne_true), hwrapped, hslot]
  cases hheld : l.gate.reg.index.hasCredential a.sessionId with
  | false => simp
  | true =>
    rw [hheld] at hproved
    simp only [Bool.not_true, Bool.false_or] at hproved
    rw [hproved]
    simp

/-- How a connection ends that does not claim. -/
theorem standing_of_not_claims (h : l.claims host a r = false) :
    l.standing host uuid ws a r = .closing ∨ l.standing host uuid ws a r = .unproved ∨
      l.standing host uuid ws a r = .viewer := by
  unfold standing
  split
  · exact .inl rfl
  · next hopen =>
    right
    unfold verdict
    dsimp only
    split
    · exact .inl rfl
    · rw [if_neg]
      · exact .inr rfl
      · intro hclaims
        have hopen : r.isClosing = false := by simpa using hopen
        simp only [Bool.and_eq_true] at hclaims
        refine absurd h (by
          rw [claims, hopen, hclaims.1.1, hclaims.1.2]
          have hproved := hclaims.2
          cases hheld : l.gate.reg.index.hasCredential a.sessionId with
          | false => simp
          | true =>
            rw [hheld] at hproved
            simpa using hproved)

theorem standing_ne_stale : l.standing host uuid ws a r ≠ .stale := by
  cases hclaims : l.claims host a r with
  | true =>
    rw [standing_of_claims hclaims]
    split
    · split <;> exact nofun
    · exact nofun
    · exact nofun
  | false =>
    rcases standing_of_not_claims hclaims with ho | ho | ho <;>
    · rw [ho]
      exact nofun

end

end Lobby

/-! ## The records -/

namespace Gateway

variable {host : Host} {uuid : Nat → Text} {ws : Nat} {h : Handshake} {existing held proved : Bool}
  {r : SessionRecord} {x : Option SessionRecord} {g g₀ : Gateway}

variable (host) in
/-- A claim is put, and the store is written. -/
theorem Worked.claimed (hw : Worked h.sessionId x g₀ g) (claimed : SessionRecord) (n : Nat) :
    Worked h.sessionId (some claimed) g₀ { g with
      reg := (g.reg.put h.sessionId claimed).persist host h.saved
      minted := n } where
  sessions k := by
    show (Context.persist _ _ _).sessions.get? k = _
    rw [Context.sessions_persist]
    exact (hw.put claimed).sessions k
  objects := hw.objects
  created := hw.created
  connected := hw.connected
  sockets := hw.sockets

/-- **A claim** works on one record, by how its write ends. -/
theorem Worked.claim (hw : Worked h.sessionId x g₀ g) (hws : ws < g.connected) {o : Outcome}
    (ho : o.ComesOf h.saved true) (hclaim : o = .owner ∨ o = .detached ∨ o = .unsaved) :
    Worked h.sessionId (o.record existing r (claimedRecord host uuid g ws h r)) g₀
      (g.claim host uuid ws h existing held proved r) := by
  have hput := hw.claimed host (claimedRecord host uuid g ws h r) (g.minted + 2)
  unfold Gateway.claim
  dsimp only
  rcases hclaim with rfl | rfl | rfl
  · rw [if_pos ho.1]
    have hattached := (hput.keep hws ⟨h.sessionId, h.owner, true, true⟩).note
      ((predecessor ws r).toList.map OwnerFact.lost ++
        [.claimed ⟨ws, g.objects h.sessionId, held, proved, uuid g.minted, uuid (g.minted + 1), h.saved⟩])
    split
    · split
      · exact hattached.shut _
      · exact hattached
    · exact hattached
  · rw [if_neg (by rw [ho]; exact nofun), if_pos (by rw [ho]; rfl)]
    exact ((hput.put _).keep hws _).note _
  · rw [if_neg (by rw [ho]; exact nofun), if_neg (by rw [ho]; exact Bool.false_ne_true)]
    cases existing with
    | true => exact ((hput.put _).keep hws _).note _
    | false => exact (hput.forget.keep hws _).note _

/-- A strict claim that is not bound has been put and saved. -/
theorem Worked.strand (hw : Worked h.sessionId x g₀ g) (hws : ws < g.connected) :
    Worked h.sessionId (some (claimedRecord host uuid g ws h r)) g₀
      (g.strand host uuid ws h held proved r) :=
  ((hw.claimed host _ _).keep hws _).note _

end Gateway

namespace Lobby

section

variable {host : Host} {uuid : Nat → Text} {ws : Nat} {a : Arrival} {existing : Bool}
  {r : SessionRecord} {l : Lobby} {g₀ : Gateway}

open Gateway (Worked)

theorem gate_claim_ok {held proved : Bool} (hsaved : a.saved = .ok) :
    (l.claim host uuid ws a existing held proved r).gate =
      if l.binds host uuid ws a r then l.gate.claim host uuid ws a.handshake existing held proved r
      else l.gate.strand host uuid ws a.handshake held proved r := by
  unfold claim
  dsimp only
  rw [if_pos hsaved]
  split
  · rfl
  · rfl

theorem gate_claim_failed {held proved : Bool} (hsaved : a.saved ≠ .ok) :
    (l.claim host uuid ws a existing held proved r).gate =
      l.gate.claim host uuid ws a.handshake existing held proved r := by
  unfold claim
  dsimp only
  rw [if_neg hsaved]
  split
  · rfl
  · rfl

variable (host uuid existing) in
/-- **A connection at a record** works on that record, by how it ends. -/
theorem worked_attend (hw : Worked a.sessionId (some r) g₀ l.gate) (hws : ws < l.gate.connected) :
    Worked a.sessionId ((l.standing host uuid ws a r).record existing r
      (Gateway.claimedRecord host uuid l.gate ws a.handshake r)) g₀
      (l.attend host uuid ws a existing r).gate := by
  have hcomes := standing_comesOf host uuid ws a r l
  rw [attend_eq rfl rfl]
  generalize l.gate.reg.index.hasCredential a.sessionId = held
  generalize (held && l.gate.reg.index.matchesSid host.digest a.sessionId a.bearer) = proved
  have hw : Worked a.handshake.sessionId (some r) g₀ l.gate := hw
  cases ho : l.standing host uuid ws a r with
  | stale | closing => exact hw.keep hws _
  | unproved => exact (hw.note _).keep hws _
  | viewer =>
    show Worked _ _ _ (Gateway.attach _ _ (if !held || proved then l.gate else _))
    split
    · exact hw.keep hws _
    · exact (hw.note _).keep hws _
  | unsaved =>
    rw [ho] at hcomes
    show Worked _ _ _ (l.claim host uuid ws a existing held proved r).gate
    rw [gate_claim_failed (by rw [show a.saved = .failed false from hcomes]; exact nofun)]
    exact hw.claim hws (o := .unsaved) hcomes (.inr (.inr rfl))
  | detached =>
    rw [ho] at hcomes
    show Worked _ _ _ (l.claim host uuid ws a existing held proved r).gate
    rw [gate_claim_failed (by rw [show a.saved = .failed true from hcomes]; exact nofun)]
    exact hw.claim hws (o := .detached) hcomes (.inr (.inl rfl))
  | owner =>
    rw [ho] at hcomes
    show Worked _ _ _ (l.claim host uuid ws a existing held proved r).gate
    rw [gate_claim_ok hcomes.1, hcomes.2, if_pos rfl]
    exact hw.claim hws (o := .owner) ⟨hcomes.1, rfl⟩ (.inl rfl)
  | stranded =>
    rw [ho] at hcomes
    show Worked _ _ _ (l.claim host uuid ws a existing held proved r).gate
    rw [gate_claim_ok hcomes.1, hcomes.2, if_neg Bool.false_ne_true]
    exact hw.strand hws

variable (host uuid) in
/-- **A connection to a record** that there is. -/
theorem worked_arrive (hget : l.gate.reg.sessions.get? a.sessionId = some r) :
    Worked a.sessionId ((l.outcome host uuid a r).record true r
      (Gateway.claimedRecord host uuid l.gate l.gate.connected a.handshake r)) (l.entered a).gate
      (l.arrive host uuid a).gate := by
  have hentered : Worked a.sessionId (some r) (l.entered a).gate (l.entered a).gate := .refl hget
  unfold outcome
  cases hadmits : l.admits a with
  | true =>
    rw [arrive_eq host uuid hget hadmits, if_pos rfl]
    exact worked_attend host uuid true hentered (Nat.lt_succ_self _)
  | false =>
    unfold arrive
    dsimp only
    rw [hadmits, if_neg Bool.false_ne_true, if_neg Bool.false_ne_true]
    exact hentered.keep (Nat.lt_succ_self _) _

end

end Lobby

/-! ## What a refusal leaves -/

/-- What of a record says whether it is ready. -/
def SessionRecord.readiness (r : SessionRecord) : Bool × Bool × Option Text × Option Text :=
  (r.ready, r.bootstrapReady, r.bootstrapReadyAt, r.bootstrapReadyReason)

/-- The record of the name is owned, supervised and ready as it was, and its provider is as usable; the
socket that came has no part in it, and no heartbeat. -/
structure Undisturbed (l l' : Lobby) (id : Text) (r : SessionRecord) (ws : Nat) : Prop where
  record : ∃ r', l'.gate.reg.sessions.get? id = some r' ∧ r'.slot = r.slot ∧
    r'.inputPolicyPending = r.inputPolicyPending ∧
    Session.userSupervised r'.policyRecord = Session.userSupervised r.policyRecord ∧
    r'.readiness = r.readiness ∧ r'.ownerWs ≠ some ws
  object : l'.gate.objects id = l.gate.objects id
  handshake : (l'.fittings (l.gate.objects id)).transportReadiness
    = (l.fittings (l.gate.objects id)).transportReadiness
  provider : (l'.fittings (l.gate.objects id)).interactionProvider
    = (l.fittings (l.gate.objects id)).interactionProvider
  usable : l.usable (l.gate.objects id) = true → l'.usable (l.gate.objects id) = true
  client : ws ∉ (l'.fittings (l.gate.objects id)).clients
  silent : ws ∉ l'.pinging

namespace Lobby

section

variable {host : Host} {uuid : Nat → Text} {a : Arrival} {r : SessionRecord} {l : Lobby}

/-- A refusal that leaves of the record all but its grant, and of its fittings all but the socket. -/
theorem undisturbed_of_left {l' : Lobby} {ws : Nat} {r' : SessionRecord}
    (hget : l'.gate.reg.sessions.get? a.sessionId = some r')
    (hr' : ∃ grant, r' = { r with grant := grant }) (howner : r.ownerWs ≠ some ws)
    (hobject : l'.gate.objects a.sessionId = l.gate.objects a.sessionId)
    (hf : l'.fittings (l.gate.objects a.sessionId) = (l.fittings (l.gate.objects a.sessionId)).without ws)
    (husable : l.usable (l.gate.objects a.sessionId) = true →
      l'.usable (l.gate.objects a.sessionId) = true)
    (hsilent : ws ∉ l'.pinging) : Undisturbed l l' a.sessionId r ws := by
  obtain ⟨grant, rfl⟩ := hr'
  refine ⟨⟨_, hget, rfl, rfl, rfl, rfl, howner⟩, hobject, ?_, ?_, husable, ?_, hsilent⟩
  · rw [hf]
    rfl
  · rw [hf]
    rfl
  · rw [hf]
    simp [Fittings.without]

theorem not_pinging_leave (l : Lobby) (ws : Nat) (object : Text × Nat) :
    ws ∉ (l.leave ws object).pinging := by
  simp [leave]

/-- The fittings of the record once the socket that entered has left. -/
theorem fittings_left {l' : Lobby} (hl' : l'.fittings = (l.entered a).fittings) :
    (l'.leave l.gate.connected (l.gate.objects a.sessionId)).fittings (l.gate.objects a.sessionId)
      = (l.fittings (l.gate.objects a.sessionId)).without l.gate.connected := by
  show Function.update l'.fittings _ ((l'.fittings _).without _) _ = _
  rw [Function.update_self, hl']
  show Fittings.without _ (Function.update l.fittings _ _ _) = _
  rw [Function.update_self, Fittings.without, Fittings.without]
  simp

/-- A refusal that touches of the lobby only the socket. -/
theorem usable_left {l' : Lobby} (hl' : l'.fittings (l.gate.objects a.sessionId)
      = (l.fittings (l.gate.objects a.sessionId)).without l.gate.connected)
    (hdisposed : l'.disposed = l.disposed) :
    l'.usable (l.gate.objects a.sessionId) = l.usable (l.gate.objects a.sessionId) := by
  rw [usable, hl', hdisposed]
  rfl

/-- The lobby after a claim whose write failed before its commit. -/
theorem claim_unsaved {ws : Nat} {existing held proved : Bool} (hsaved : a.saved = .failed false) :
    l.claim host uuid ws a existing held proved r =
      { l.leave ws (l.gate.objects a.sessionId) with
        gate := l.gate.claim host uuid ws a.handshake existing held proved r
        disposed := l.disposed ++ (l.fittings (l.gate.objects a.sessionId)).interactionProvider.toList } := by
  unfold claim
  dsimp only
  rw [if_neg (by rw [hsaved]; exact nofun), if_neg (by rw [hsaved]; exact Bool.false_ne_true)]
  unfold leave fit
  dsimp only
  rw [Function.update_idem, Function.update_self]

/-- A connection that is let in comes to the record, and ends there. -/
theorem arrive_ended (hget : l.gate.reg.sessions.get? a.sessionId = some r) {o : Outcome}
    (ho : l.outcome host uuid a r = o) (hstale : o ≠ .stale) : ∃ held proved,
    l.arrive host uuid a = (l.entered a).ended host uuid l.gate.connected a true held proved r o ∧
      o.ComesOf a.saved ((l.entered a).binds host uuid l.gate.connected a r) := by
  have hadmits : l.admits a = true := by
    by_contra hadmits
    rw [outcome, if_neg hadmits] at ho
    exact hstale ho.symm
  rw [outcome, if_pos hadmits] at ho
  have hcomes := standing_comesOf host uuid l.gate.connected a r (l.entered a)
  have harrive := (arrive_eq host uuid hget hadmits).trans (attend_eq rfl rfl)
  rw [ho] at hcomes harrive
  exact ⟨_, _, harrive, hcomes⟩

/-- **A claim whose write failed before its commit** leaves the incumbent as it was exactly where its
provider was not usable: the claim disposes of it. -/
theorem undisturbed_unsaved_iff (hn : l.gate.Numbered)
    (hget : l.gate.reg.sessions.get? a.sessionId = some r)
    (ho : l.outcome host uuid a r = .unsaved) :
    Undisturbed l (l.arrive host uuid a) a.sessionId r l.gate.connected ↔
      l.usable (l.gate.objects a.sessionId) = false := by
  have hworked := worked_arrive host uuid hget
  rw [ho] at hworked
  obtain ⟨held, proved, harrive, hsaved⟩ := arrive_ended hget ho nofun
  have hprovider : ((l.entered a).fittings (l.gate.objects a.sessionId)).interactionProvider
      = (l.fittings (l.gate.objects a.sessionId)).interactionProvider := by
    show (Function.update l.fittings _ _ _).interactionProvider = _
    rw [Function.update_self]
  obtain ⟨gate, hl'⟩ : ∃ gate, l.arrive host uuid a =
      { (l.entered a).leave l.gate.connected (l.gate.objects a.sessionId) with
        gate := gate
        disposed := l.disposed ++
          (l.fittings (l.gate.objects a.sessionId)).interactionProvider.toList } := by
    refine ⟨(l.entered a).gate.claim host uuid l.gate.connected a.handshake true held proved r, ?_⟩
    rw [harrive, ← hprovider]
    exact claim_unsaved hsaved
  have hf : (l.arrive host uuid a).fittings (l.gate.objects a.sessionId)
      = (l.fittings (l.gate.objects a.sessionId)).without l.gate.connected := by
    rw [hl']
    exact fittings_left rfl
  have hdisposed : (l.arrive host uuid a).usable (l.gate.objects a.sessionId) = false := by
    rw [usable, hf, hl']
    show Option.any _ (l.fittings _).interactionProvider = false
    cases (l.fittings (l.gate.objects a.sessionId)).interactionProvider with
    | none => rfl
    | some p => simp
  constructor
  · intro h
    cases hu : l.usable (l.gate.objects a.sessionId) with
    | false => rfl
    | true => exact (h.usable hu).symm.trans hdisposed
  · intro hu
    refine undisturbed_of_left hworked.get?_self ⟨_, rfl⟩ (fun hown => ?_) ?_ hf ?_ ?_
    · exact lt_irrefl _ (hn.owner _ _ _ hget hown)
    · rw [hworked.objects]
      rfl
    · intro husable
      rw [hu] at husable
      cases husable
    · rw [hl']
      exact not_pinging_leave (l.entered a) _ (l.gate.objects a.sessionId)

/-- **A connection that is refused** leaves the incumbent as it was exactly when no strict owner is
turned away, and no provider was usable where the write of its claim failed. -/
theorem undisturbed_iff (hn : l.gate.Numbered) (hget : l.gate.reg.sessions.get? a.sessionId = some r)
    (hrefused : (l.outcome host uuid a r).refused = true) :
    Undisturbed l (l.arrive host uuid a) a.sessionId r l.gate.connected ↔
      l.outcome host uuid a r ≠ .stale ∧ l.outcome host uuid a r ≠ .stranded ∧
        (l.outcome host uuid a r = .unsaved → l.usable (l.gate.objects a.sessionId) = false) := by
  have hworked := worked_arrive host uuid hget
  have howner : r.ownerWs ≠ some l.gate.connected := fun hown =>
    lt_irrefl _ (hn.owner _ _ _ hget hown)
  cases ho : l.outcome host uuid a r with
  | stale =>
    refine iff_of_false (fun h => h.silent ?_) (fun h => h.1 rfl)
    have hout : l.admits a = false := by
      by_contra hin
      rw [outcome, if_pos (by simpa using hin)] at ho
      exact standing_ne_stale ho
    unfold arrive
    dsimp only
    rw [hout, if_neg Bool.false_ne_true]
    exact List.mem_append_right _ List.mem_cons_self
  | closing | unproved =>
    refine iff_of_true ?_ ⟨nofun, nofun, nofun⟩
    obtain ⟨held, proved, harrive, -⟩ := arrive_ended hget ho nofun
    rw [ho] at hworked
    have hf : (l.arrive host uuid a).fittings (l.gate.objects a.sessionId)
        = (l.fittings (l.gate.objects a.sessionId)).without l.gate.connected := by
      rw [harrive]
      exact fittings_left rfl
    refine undisturbed_of_left hworked.get?_self ⟨r.grant, rfl⟩ howner ?_ hf (fun hu => ?_) ?_
    · rw [hworked.objects]
      rfl
    · rw [usable_left hf (by rw [harrive]; rfl)]
      exact hu
    · rw [harrive]
      exact not_pinging_leave (l.entered a) _ (l.gate.objects a.sessionId)
  | unsaved =>
    refine (undisturbed_unsaved_iff hn hget ho).trans ?_
    exact ⟨fun h => ⟨nofun, nofun, fun _ => h⟩, fun h => h.2.2 rfl⟩
  | stranded =>
    refine iff_of_false (fun h => ?_) (fun h => h.2.1 rfl)
    obtain ⟨r', hr', -, -, -, -, hother⟩ := h.record
    rw [ho] at hworked
    rw [hworked.get?_self] at hr'
    cases hr'
    exact hother (congrArg Prod.fst (Gateway.slot_claimedRecord host uuid l.gate _ a.handshake r))
  | detached | owner | viewer =>
    rw [ho] at hrefused
    cases hrefused

end

end Lobby

/-! ## Runs -/

/-- What happens at a daemon: a connection, or other traffic, which may leave beside the records and the
sockets whatever it does. -/
inductive Visit where
  | arrive (a : Arrival)
  | traffic (t : Gateway.Traffic) (ht : t.connects = false) (fittings : Text × Nat → Fittings)
      (disposed pinging : List Nat)

namespace Lobby

/-- A daemon that starts over a session store. -/
def started (host : Host) (now : Nat) (reg : Context) : Lobby :=
  { gate := .started host now reg, fittings := fun _ => ⟨[], none, none, none, none, false⟩
    disposed := [], pinging := [] }

def visit (host : Host) (uuid : Nat → Text) (l : Lobby) : Visit → Lobby
  | .arrive a => l.arrive host uuid a
  | .traffic t _ fittings disposed pinging =>
    { gate := l.gate.step host uuid t, fittings := fittings, disposed := disposed, pinging := pinging }

def visits (host : Host) (uuid : Nat → Text) (l : Lobby) (vs : List Visit) : Lobby :=
  vs.foldl (visit host uuid) l

section

variable {host : Host} {uuid : Nat → Text} {a : Arrival} {r : SessionRecord} {l : Lobby}
  {object : Text × Nat}

open Gateway (Worked Moves)

/-- Who is seated by a connection: its socket, where it has made the record, or owns it. -/
def Seated (host : Host) (uuid : Nat → Text) (a : Arrival) (l : Lobby) (k : Text) (ws : Nat) : Prop :=
  k = a.sessionId ∧ ws = l.gate.connected ∧ ∀ r, l.gate.reg.sessions.get? k = some r →
    l.outcome host uuid a r = .owner ∨ l.outcome host uuid a r = .stranded

/-- A connection that finds no record makes one, which is a new object. -/
theorem moves_arrive_new (hget : l.gate.reg.sessions.get? a.sessionId = none) :
    Moves id (l.Seated host uuid a) (l.entered a).gate (l.arrive host uuid a).gate := by
  unfold arrive
  dsimp only
  split
  · rw [hget]
    dsimp only
    generalize hr : initializeBootstrapState (host.isoText a.now)
      (Gateway.autoSession host l.gate.connected a.handshake) = r
    generalize hl₁ : fit _ _ _ = l₁
    have howner : r.ownerWs = some l.gate.connected := by
      rw [← hr]
      exact ownerWs_initializeBootstrapState _
    have hgate : l₁.gate = ((l.entered a).gate.create a.sessionId).put a.sessionId r := by
      rw [← hl₁]
      rfl
    have hself : l₁.gate.reg.sessions.get? a.sessionId = some r := by
      rw [hgate]
      exact OrdMap.get?_set_self ..
    have hworked := worked_attend host uuid false (.refl hself)
      (show l.gate.connected < l₁.gate.connected by rw [hgate]; exact Nat.lt_succ_self _)
    have hobjects := hworked.objects
    have hcreated := hworked.created
    have hconnected := hworked.connected
    have hsockets := hworked.sockets
    rw [hgate] at hobjects hcreated hconnected hsockets
    refine ⟨hconnected, hcreated.ge.trans' (Nat.le_succ _), hsockets, fun _ _ _ _ he => he,
      fun k r' hr' => ?_⟩
    rw [hworked.sessions] at hr'
    split at hr'
    · next hk =>
      right
      refine ⟨?_, hcreated.ge, fun ws hws => ⟨hk, ?_, fun r₁ hr₁ => ?_⟩⟩
      · rw [hobjects, hk]
        exact Function.update_self ..
      · have hclaimed := congrArg Prod.fst
          (Gateway.slot_claimedRecord host uuid l₁.gate l.gate.connected a.handshake r)
        rw [Outcome.owner_record hclaimed hr', howner] at hws
        split at hws
        · exact (Option.some.inj hws).symm
        · split at hws
          · cases hws
          · exact (Option.some.inj hws).symm
      · rw [hk, hget] at hr₁
        cases hr₁
    · next hk =>
      left
      rw [hgate] at hr'
      refine ⟨r', ?_, ?_, fun ws hws => .inl hws⟩
      · have hr' : (l.gate.reg.sessions.set a.sessionId r).get? k = some r' := hr'
        rwa [OrdMap.get?_set, if_neg hk] at hr'
      · rw [hobjects]
        exact Function.update_of_ne hk _ _
  · exact ⟨le_rfl, le_rfl, fun ws hws => by
      by_cases hk : ws = l.gate.connected
      · exact .inr (hk ▸ Nat.lt_succ_self _)
      · left
        have hws : (l.gate.sockets.set l.gate.connected _).get? ws ≠ none := hws
        rwa [OrdMap.get?_set, if_neg hk] at hws,
      fun _ _ _ _ he => he, fun k r' hr' => .inl ⟨r', hr', rfl, fun _ h => .inl h⟩⟩

/-- **A connection** seats its socket at most. -/
theorem moves_arrive (host : Host) (uuid : Nat → Text) (a : Arrival) (l : Lobby) :
    Moves id (l.Seated host uuid a) (l.entered a).gate (l.arrive host uuid a).gate := by
  cases hget : l.gate.reg.sessions.get? a.sessionId with
  | none => exact moves_arrive_new hget
  | some r =>
    refine (worked_arrive host uuid hget).moves hget fun r' ws hr' hws => ?_
    have hclaimed := congrArg Prod.fst
      (Gateway.slot_claimedRecord host uuid l.gate l.gate.connected a.handshake r)
    rw [Outcome.owner_record hclaimed hr'] at hws
    split at hws
    · next howns =>
      refine .inr ⟨rfl, (Option.some.inj hws).symm, fun r₁ hr₁ => ?_⟩
      rw [hget] at hr₁
      cases hr₁
      exact howns
    · split at hws
      · cases hws
      · exact .inl hws

theorem numbered_visit (hn : l.gate.Numbered) (v : Visit) : (l.visit host uuid v).gate.Numbered := by
  cases v with
  | arrive a =>
    have hmoves := moves_arrive host uuid a l
    have hentered : (l.entered a).gate.Numbered :=
      ⟨fun ws hws => (hn.came ws hws).trans (Nat.lt_succ_self _),
        fun k r ws hr hws => (hn.owner k r ws hr hws).trans (Nat.lt_succ_self _), hn.made, hn.apart⟩
    refine hentered.moves hmoves fun k ws hseat => ?_
    rw [hseat.2.1]
    exact hmoves.connected
  | traffic t ht fittings disposed pinging => exact Gateway.numbered_step hn ht

theorem numbered_visits (host : Host) (uuid : Nat → Text) (now : Nat) (reg : Context)
    (vs : List Visit) : ((started host now reg).visits host uuid vs).gate.Numbered := by
  suffices h : ∀ l : Lobby, l.gate.Numbered → (l.visits host uuid vs).gate.Numbered from
    h _ (Gateway.numbered_started host now reg)
  induction vs with
  | nil => exact fun l hn => hn
  | cons v vs ih => exact fun l hn => ih _ (numbered_visit hn v)

/-! ## Until a claim completes -/

/-- The connection comes to the record object, and ends so. -/
def Ends (host : Host) (uuid : Nat → Text) (o : Outcome) (object : Text × Nat) (l : Lobby) :
    Visit → Prop
  | .arrive a => l.gate.objects a.sessionId = object ∧
      ∃ r, l.gate.reg.sessions.get? a.sessionId = some r ∧ l.outcome host uuid a r = o
  | .traffic .. => False

/-- Somebody is given the slot of the record object without a claim that completes: a strict claim is
stranded there, or the frame of a socket takes the slot. -/
def Usurps (host : Host) (uuid : Nat → Text) (object : Text × Nat) (l : Lobby) : Visit → Prop
  | .arrive a => l.Ends host uuid .stranded object (.arrive a)
  | .traffic t _ _ _ _ => ∃ k ws, l.gate.Seats t k ws ∧ l.gate.objects k = object

/-- Nobody owns the record object until a claim of it completes. -/
def Awaits (host : Host) (uuid : Nat → Text) (object : Text × Nat) : Lobby → List Visit → Prop
  | l, [] => l.gate.Vacated object
  | l, v :: vs => l.gate.Vacated object ∧
      (l.Ends host uuid .owner object v ∨ (l.visit host uuid v).Awaits host uuid object vs)

/-- Nobody takes the slot of the record object before a claim of it completes. -/
def Unusurped (host : Host) (uuid : Nat → Text) (object : Text × Nat) : Lobby → List Visit → Prop
  | _, [] => True
  | l, v :: vs => l.Ends host uuid .owner object v ∨
      ¬l.Usurps host uuid object v ∧ (l.visit host uuid v).Unusurped host uuid object vs

/-- A slot that is free stays so until somebody takes it. -/
theorem vacated_visit_iff (hmade : object.2 ≤ l.gate.created) (hv : l.gate.Vacated object) {v : Visit}
    (howner : ¬l.Ends host uuid .owner object v) :
    (l.visit host uuid v).gate.Vacated object ↔ ¬l.Usurps host uuid object v := by
  cases v with
  | arrive a =>
    constructor
    · rintro hfree ⟨hobject, r, hget, ho⟩
      have hworked := worked_arrive host uuid hget
      rw [ho] at hworked
      have hnone := hfree a.sessionId _ hworked.get?_self
        ((congrFun hworked.objects a.sessionId).trans hobject)
      have howns := congrArg Prod.fst
        (Gateway.slot_claimedRecord host uuid l.gate l.gate.connected a.handshake r)
      cases howns.symm.trans hnone
    · intro husurps
      have hentered : (l.entered a).gate.Vacated object := hv
      refine hentered.moves hmade (moves_arrive host uuid a l) fun k r ws hget hk hseat => ?_
      obtain ⟨rfl, -, hseat⟩ := hseat
      rcases hseat r hget with ho | ho
      · exact howner ⟨hk, r, hget, ho⟩
      · exact husurps ⟨hk, r, hget, ho⟩
  | traffic t ht fittings disposed pinging =>
    constructor
    · rintro hfree ⟨k, ws, hseat, rfl⟩
      exact Gateway.not_vacated_of_seats host uuid hseat hfree
    · intro husurps
      obtain ⟨σ, hmoves, hσ⟩ := Gateway.moves_step host uuid l.gate ht
      refine hv.moves hmade hmoves fun k r ws _ hk hseat => ?_
      rw [hσ k ws hseat] at hk
      exact husurps ⟨k, ws, hseat, hk⟩

variable (host uuid) in
theorem created_visit (l : Lobby) (v : Visit) :
    l.gate.created ≤ (l.visit host uuid v).gate.created := by
  cases v with
  | arrive a => exact (moves_arrive host uuid a l).created
  | traffic t ht fittings disposed pinging =>
    obtain ⟨σ, hmoves, -⟩ := Gateway.moves_step host uuid l.gate ht
    exact hmoves.created

/-- **A slot that is free** stays so until a claim completes exactly if nobody takes it before. -/
theorem awaits_iff (hmade : object.2 ≤ l.gate.created) (hv : l.gate.Vacated object) (vs : List Visit) :
    l.Awaits host uuid object vs ↔ l.Unusurped host uuid object vs := by
  induction vs generalizing l with
  | nil => exact iff_of_true hv trivial
  | cons v vs ih =>
    have hmade' := hmade.trans (created_visit host uuid l v)
    constructor
    · rintro ⟨-, howner | hlater⟩
      · exact .inl howner
      · by_cases howner : l.Ends host uuid .owner object v
        · exact .inl howner
        · have hv' : (l.visit host uuid v).gate.Vacated object := by
            cases vs with
            | nil => exact hlater
            | cons _ _ => exact hlater.1
          exact .inr ⟨(vacated_visit_iff hmade hv howner).mp hv', (ih hmade' hv').mp hlater⟩
    · rintro (howner | ⟨husurps, hlater⟩)
      · exact ⟨hv, .inl howner⟩
      · by_cases howner : l.Ends host uuid .owner object v
        · exact ⟨hv, .inl howner⟩
        · have hv' := (vacated_visit_iff hmade hv howner).mpr husurps
          exact ⟨hv, .inr ((ih hmade' hv').mpr hlater)⟩

/-- A claim whose write failed after its commit leaves the record without an owner. -/
theorem vacated_detached (hn : l.gate.Numbered) (hget : l.gate.reg.sessions.get? a.sessionId = some r)
    (ho : l.outcome host uuid a r = .detached) :
    (l.arrive host uuid a).gate.Vacated (l.gate.objects a.sessionId) := by
  have hworked := worked_arrive host uuid hget
  rw [ho] at hworked
  intro k r' hr' hk
  rw [hworked.objects] at hk
  rw [hworked.sessions] at hr'
  split at hr'
  · cases hr'
    rfl
  · next hne => exact absurd (hn.apart k a.sessionId r' r hr' hget hk) hne

/-! ## The incumbent -/

/-- The incumbent is left as it was by a connection that is refused; and where the claim of the
connection was saved but reported as failed, nobody owns the record until a claim completes. -/
def LeavesIncumbent (host : Host) (uuid : Nat → Text) (a : Arrival) (r : SessionRecord)
    (after : List Visit) (l : Lobby) : Prop :=
  ((l.outcome host uuid a r).refused = true →
    Undisturbed l (l.arrive host uuid a) a.sessionId r l.gate.connected) ∧
  (l.outcome host uuid a r = .detached →
    (l.arrive host uuid a).Awaits host uuid (l.gate.objects a.sessionId) after)

/-- The binding of a strict owner is current when it comes, and when its claim that was saved is bound;
a claim whose write fails before its commit finds no provider that is usable; and after one whose write
fails after its commit, nobody takes the slot. -/
structure Spares (host : Host) (uuid : Nat → Text) (a : Arrival) (r : SessionRecord)
    (after : List Visit) (l : Lobby) : Prop where
  admitted : l.admits a = true
  bound : l.claims host a r = true → a.saved = .ok →
    l.binds host uuid l.gate.connected a r = true
  provider : l.claims host a r = true → a.saved = .failed false →
    l.usable (l.gate.objects a.sessionId) = false
  slot : l.claims host a r = true → a.saved = .failed true →
    (l.arrive host uuid a).Unusurped host uuid (l.gate.objects a.sessionId) after

theorem outcome_of_claims (hadmits : l.admits a = true) (hclaims : l.claims host a r = true) :
    l.outcome host uuid a r =
      match a.saved with
      | .ok => if l.binds host uuid l.gate.connected a r then .owner else .stranded
      | .failed true => .detached
      | .failed false => .unsaved :=
  (if_pos hadmits).trans (standing_of_claims (l := l.entered a) hclaims)

/-- The outcome of a claim says how it came about. -/
theorem outcome_claimed {o : Outcome} (ho : l.outcome host uuid a r = o)
    (hclaim : o = .stranded ∨ o = .unsaved ∨ o = .detached) : l.claims host a r = true ∧
      o.ComesOf a.saved (l.binds host uuid l.gate.connected a r) := by
  have hadmits : l.admits a = true := by
    by_contra hout
    rw [outcome, if_neg hout] at ho
    subst ho
    rcases hclaim with h | h | h <;> cases h
  rw [outcome, if_pos hadmits] at ho
  refine ⟨?_, by rw [← ho]; exact standing_comesOf ..⟩
  by_contra hnot
  have hnot : l.claims host a r = false := by simpa using hnot
  rcases standing_of_not_claims (l := l.entered a) hnot with hs | hs | hs <;>
  · rw [hs] at ho
    subst ho
    rcases hclaim with h | h | h <;> cases h

theorem leavesIncumbent_iff_outcome (hn : l.gate.Numbered)
    (hget : l.gate.reg.sessions.get? a.sessionId = some r) (after : List Visit) :
    l.LeavesIncumbent host uuid a r after ↔
      (l.outcome host uuid a r ≠ .stale ∧ l.outcome host uuid a r ≠ .stranded ∧
        (l.outcome host uuid a r = .unsaved → l.usable (l.gate.objects a.sessionId) = false)) ∧
      (l.outcome host uuid a r = .detached →
        (l.arrive host uuid a).Unusurped host uuid (l.gate.objects a.sessionId) after) := by
  refine and_congr ?_ (forall_congr' fun hdetached => ?_)
  · cases hrefused : (l.outcome host uuid a r).refused with
    | true => exact (forall_prop_of_true rfl).trans (undisturbed_iff hn hget hrefused)
    | false =>
      refine iff_of_true nofun ?_
      cases ho : l.outcome host uuid a r with
      | detached | owner | viewer => exact ⟨nofun, nofun, nofun⟩
      | stale | closing | unproved | unsaved | stranded =>
        rw [ho] at hrefused
        cases hrefused
  · have hmade : (l.gate.objects a.sessionId).2 ≤ (l.arrive host uuid a).gate.created :=
      (hn.made _ r hget).trans (moves_arrive host uuid a l).created
    exact awaits_iff hmade (vacated_detached hn hget hdetached) after

theorem spares_iff_outcome (after : List Visit) :
    l.Spares host uuid a r after ↔
      (l.outcome host uuid a r ≠ .stale ∧ l.outcome host uuid a r ≠ .stranded ∧
        (l.outcome host uuid a r = .unsaved → l.usable (l.gate.objects a.sessionId) = false)) ∧
      (l.outcome host uuid a r = .detached →
        (l.arrive host uuid a).Unusurped host uuid (l.gate.objects a.sessionId) after) := by
  constructor
  · intro h
    refine ⟨⟨?_, fun ho => ?_, fun ho => ?_⟩, fun ho => ?_⟩
    · rw [outcome, if_pos h.admitted]
      exact standing_ne_stale
    · obtain ⟨hclaims, hsaved, hbinds⟩ := outcome_claimed ho (.inl rfl)
      rw [h.bound hclaims hsaved] at hbinds
      cases hbinds
    · obtain ⟨hclaims, hsaved⟩ := outcome_claimed ho (.inr (.inl rfl))
      exact h.provider hclaims hsaved
    · obtain ⟨hclaims, hsaved⟩ := outcome_claimed ho (.inr (.inr rfl))
      exact h.slot hclaims hsaved
  · rintro ⟨⟨hstale, hstranded, hprovider⟩, hslot⟩
    have hadmits : l.admits a = true := by
      by_contra hout
      exact hstale (if_neg hout)
    refine ⟨hadmits, fun hclaims hsaved => ?_, fun hclaims hsaved => hprovider ?_,
      fun hclaims hsaved => hslot ?_⟩
    · by_contra hbinds
      refine hstranded ((outcome_of_claims hadmits hclaims).trans ?_)
      rw [hsaved]
      exact if_neg hbinds
    · rw [outcome_of_claims hadmits hclaims, hsaved]
    · rw [outcome_of_claims hadmits hclaims, hsaved]

/-- **A connection to a record, in every reachable state,** leaves the incumbent as it was, or the
record without an owner until a claim completes, exactly when it spares the incumbent. -/
theorem leavesIncumbent_iff (host : Host) (uuid : Nat → Text) (now : Nat) (reg : Context)
    (before : List Visit) (a : Arrival) (r : SessionRecord) (after : List Visit)
    (hget : ((started host now reg).visits host uuid before).gate.reg.sessions.get? a.sessionId
      = some r) :
    ((started host now reg).visits host uuid before).LeavesIncumbent host uuid a r after ↔
      ((started host now reg).visits host uuid before).Spares host uuid a r after :=
  (leavesIncumbent_iff_outcome (numbered_visits host uuid now reg before) hget after).trans
    (spares_iff_outcome after).symm

end

/-! ### A bridge that claims again -/

/-- A bridge that asks to own the session; `saved` says how its write ends. -/
def bridge (saved : Saved) : Arrival :=
  { Gateway.bridgeHandshake with
    saved := saved, strict := none, boundAt := 0, capable := false, readinessNonce := "n" }

/-- The session is owned. -/
def ownedVisits : List Visit := [.arrive (bridge .ok)]

theorem leavesIncumbent_iff_detached : ∃ r,
    ((started plainHost 0 .started).visits plainHost Gateway.pairUuid ownedVisits).LeavesIncumbent
      plainHost Gateway.pairUuid (bridge (.failed true)) r ownedVisits := by
  obtain ⟨r, hr⟩ : ∃ r, ((started plainHost 0 .started).visits plainHost Gateway.pairUuid
      ownedVisits).gate.reg.sessions.get? (bridge (.failed true)).sessionId = some r :=
    Option.isSome_iff_exists.mp (by decide +kernel)
  refine ⟨r, (leavesIncumbent_iff plainHost Gateway.pairUuid 0 .started ownedVisits
    (bridge (.failed true)) r ownedVisits hr).mpr ⟨by decide +kernel, nofun, nofun, fun _ _ => .inl ?_⟩⟩
  obtain ⟨r₁, hr₁, ho⟩ := (Option.any_eq_true _ _).mp
    (show ((((started plainHost 0 .started).visits plainHost Gateway.pairUuid ownedVisits).arrive
      plainHost Gateway.pairUuid (bridge (.failed true))).gate.reg.sessions.get?
        (bridge .ok).sessionId).any (fun r₁ => (((started plainHost 0 .started).visits plainHost
          Gateway.pairUuid ownedVisits).arrive plainHost Gateway.pairUuid (bridge (.failed true))).outcome
            plainHost Gateway.pairUuid (bridge .ok) r₁ = .owner) = true by decide +kernel)
  exact ⟨by decide +kernel, r₁, hr₁, of_decide_eq_true ho⟩

/-- The owner has registered an interaction provider. -/
def providedVisits : List Visit :=
  ownedVisits ++ [.traffic (.message 0
    { message := some (.obj [("type", .str "interaction_provider")]), now := 0, negotiated := false
      transportReady := false }) rfl
    (fun _ => { clients := [0], interactionProvider := some 0, transportReadiness := none
                pendingHandoffCapability := none, sshState := none, strictOwnerConnected := false })
    [] [0]]

/-- Every connection to a record leaves the incumbent as it was, or the record without an owner until a
claim completes. -/
def IncumbentsLeft : Prop :=
  ∀ (host : Host) (uuid : Nat → Text) (now : Nat) (reg : Context) (before : List Visit) (a : Arrival)
    (r : SessionRecord) (after : List Visit),
    ((started host now reg).visits host uuid before).gate.reg.sessions.get? a.sessionId = some r →
    ((started host now reg).visits host uuid before).LeavesIncumbent host uuid a r after

/-- A claim whose write failed before its commit has disposed of the provider of the incumbent. -/
theorem unsaved_disposes : ¬IncumbentsLeft := by
  intro h
  obtain ⟨r, hr, ho⟩ := (Option.any_eq_true _ _).mp
    (show (((started plainHost 0 .started).visits plainHost Gateway.pairUuid
      providedVisits).gate.reg.sessions.get? (bridge (.failed false)).sessionId).any (fun r =>
        (((started plainHost 0 .started).visits plainHost Gateway.pairUuid providedVisits).outcome
          plainHost Gateway.pairUuid (bridge (.failed false)) r).refused) = true by decide +kernel)
  have husable := ((h plainHost Gateway.pairUuid 0 .started providedVisits (bridge (.failed false)) r []
    hr).1 ho).usable (by decide +kernel)
  revert husable
  decide +kernel

end Lobby

end Telepty.Registry
