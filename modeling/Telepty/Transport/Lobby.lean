import Telepty.Transport.Ownership
import Telepty.Transport.Readiness

/-!
# The lobby of the owners

A connection as its handler sees it, with all that it touches before it is refused: beside the records
and the sockets, which are those of the gateway, the clients of a record, its interaction provider and
its readiness handshake, the heartbeat of the socket, and the binding under which a strict owner comes.

A failed claim puts the members of the record back. The clients are one object, which the claim has
changed; a provider that was disposed of stays so.
-/

namespace Telepty.Registry

open Infra

/-! ## State -/

/-- What the transport keeps on a record beside what the gateway has of it. -/
structure Fittings where
  clients : List Nat
  /-- the number of the provider -/
  interactionProvider : Option Nat
  transportReadiness : Option Readiness.State
  /-- the owner and its generation -/
  pendingHandoffCapability : Option (Nat × Text)
  sshState : Option Json
  strictOwnerConnected : Bool

/-- The binding of a strict owner, as the upgrade of its connection has proved it. -/
structure StrictOwner where
  session : Text × Nat
  epoch : Option Text
  generation : Option Nat
  /-- the id and the audience of the owning principal -/
  principal : Option (Text × Text)
  expires : Nat
  stopped : Bool

/-- `current()` of a binding that is not bound, for the record that stands under its name. -/
def StrictOwner.current (s : StrictOwner) (now : Nat) (object : Text × Nat)
    (r : SessionRecord) : Bool :=
  !s.stopped && now < s.expires && object = s.session && !r.isClosing && r.sessionEpoch = s.epoch &&
    r.credentialGeneration = s.generation &&
    r.owningPrincipal.map (fun p => (p.id, p.audience)) = s.principal

structure Lobby where
  gate : Gateway
  /-- of the record objects -/
  fittings : Text × Nat → Fittings
  /-- the providers whose `dispose()` was called -/
  disposed : List Nat
  /-- the sockets whose `pingInterval` runs -/
  pinging : List Nat

/-- What a connection brings. -/
structure Arrival extends Gateway.Handshake where
  strict : Option StrictOwner
  /-- when the claim is bound to the strict owner -/
  boundAt : Nat
  /-- `declaresCapability(header)` -/
  capable : Bool
  readinessNonce : Text

/-- A strict owner claims, and brings no process id. -/
def Arrival.handshake (a : Arrival) : Gateway.Handshake :=
  { a.toHandshake with
    owner := a.strict.isSome || a.owner
    ownerPid := if a.strict.isSome then none else a.ownerPid }

/-! ## The claim -/

/-- What a claim makes of the fittings of a record. -/
def Fittings.claimed (a : Arrival) (ownerGeneration : Text) (r : SessionRecord)
    (f : Fittings) : Fittings :=
  let begun := Readiness.beginOwnerGeneration a.capable a.readinessNonce
    { id := r.id, sessionEpoch := r.sessionEpoch
      interactionOwnerGeneration := some (some ownerGeneration), ownerOpen := true
      transportReadiness := f.transportReadiness }
  { f with
    interactionProvider := none
    transportReadiness := begun.transportReadiness
    pendingHandoffCapability := none
    sshState := if r.sshRemote.isSome then
        some (.obj [("phase", .str "connecting"), ("generation", .num 0),
          ("reason", .str "owner_changed"), ("owner_generation", .str ownerGeneration)])
      else f.sshState }

def Fittings.without (ws : Nat) (f : Fittings) : Fittings :=
  { f with clients := f.clients.filter (· ≠ ws) }

/-- A strict claim that was saved, but whose binding is no longer current: the socket is terminated
where it stands. -/
def Gateway.strand (host : Host) (uuid : Nat → Text) (ws : Nat) (h : Gateway.Handshake)
    (held proved : Bool) (r : SessionRecord) (g : Gateway) : Gateway :=
  let claimed := Gateway.claimedRecord host uuid g ws h r
  let c : Claim := ⟨ws, g.objects h.sessionId, held, proved, uuid g.minted, uuid (g.minted + 1), h.saved⟩
  let g' := { g with
    reg := (g.reg.put h.sessionId claimed).persist host h.saved
    minted := g.minted + 2 }
  (g'.turnAway ws h).note ((Gateway.predecessor ws r).toList.map OwnerFact.lost ++ [.claimed c])

namespace Lobby

def fit (object : Text × Nat) (f : Fittings) (l : Lobby) : Lobby :=
  { l with fittings := Function.update l.fittings object f }

/-- `clients.delete(ws)` and `clearInterval(pingInterval)` -/
def leave (ws : Nat) (object : Text × Nat) (l : Lobby) : Lobby :=
  { l.fit object ((l.fittings object).without ws) with pinging := l.pinging.filter (· ≠ ws) }

/-- `strictOwner.bind(ws)` is not refused. -/
def binds (host : Host) (uuid : Nat → Text) (ws : Nat) (a : Arrival) (r : SessionRecord)
    (l : Lobby) : Bool :=
  a.strict.all fun s => s.current a.boundAt (l.gate.objects a.sessionId)
    (Gateway.claimedRecord host uuid l.gate ws a.handshake r)

/-- The ownership transfer; `existing` says whether the record was there before the connection. -/
def claim (host : Host) (uuid : Nat → Text) (ws : Nat) (a : Arrival) (existing held proved : Bool)
    (r : SessionRecord) (l : Lobby) : Lobby :=
  let object := l.gate.objects a.sessionId
  let before := l.fittings object
  let after := before.claimed a (uuid (l.gate.minted + 1)) r
  let l' := { l with
    gate := l.gate.claim host uuid ws a.handshake existing held proved r
    disposed := l.disposed ++ before.interactionProvider.toList }
  if a.saved = .ok then
    let l' := l'.fit object { after with
      strictOwnerConnected := before.strictOwnerConnected || a.strict.isSome }
    if l.binds host uuid ws a r then l'
    else { l' with gate := l.gate.strand host uuid ws a.handshake held proved r }
  else if a.saved.committed then (l'.fit object after).leave ws object
  else (l'.fit object before).leave ws object

/-- The gate of the owner claim: `held` and `proved` say whether the session holds a credential and the
socket has proved it. -/
def pass (host : Host) (uuid : Nat → Text) (ws : Nat) (a : Arrival) (existing held proved : Bool)
    (r : SessionRecord) (l : Lobby) : Lobby :=
  let h := a.handshake
  let mayClaimOwnership := !held || proved
  let gate := if mayClaimOwnership then l.gate else l.gate.note [.unproved ws]
  if r.hasType "wrapped" && h.owner && held && !proved then
    { l.leave ws (l.gate.objects a.sessionId) with gate := gate.turnAway ws h }
  else if r.hasType "wrapped" && (r.ownerWs.isNone || h.owner) && mayClaimOwnership then
    claim host uuid ws a existing held proved r { l with gate := gate }
  else { l with gate := gate.attach ws h }

/-- The connection at a record. -/
def attend (host : Host) (uuid : Nat → Text) (ws : Nat) (a : Arrival) (existing : Bool)
    (r : SessionRecord) (l : Lobby) : Lobby :=
  if r.isClosing then
    { l.leave ws (l.gate.objects a.sessionId) with gate := l.gate.turnAway ws a.handshake }
  else
    let held := l.gate.reg.index.hasCredential a.sessionId
    l.pass host uuid ws a existing held
      (held && l.gate.reg.index.matchesSid host.digest a.sessionId a.bearer) r

/-- The strict owner may come in: its binding is the one of the record. -/
def admits (a : Arrival) (l : Lobby) : Bool :=
  a.strict.all fun s => (l.gate.reg.sessions.get? a.sessionId).any fun r =>
    s.current a.now (l.gate.objects a.sessionId) r

/-- The fittings of a record that a connection makes. -/
def autoFittings (ws : Nat) : Fittings := ⟨[ws], none, none, none, none, false⟩

/-- **`wss.on('connection', …)`** -/
def arrive (host : Host) (uuid : Nat → Text) (a : Arrival) (l : Lobby) : Lobby :=
  let h := a.handshake
  let ws := l.gate.connected
  let admitted := l.admits a
  let l := { l with
    gate := { l.gate with connected := l.gate.connected + 1 }
    pinging := l.pinging ++ [ws] }
  if admitted then
    match l.gate.reg.sessions.get? a.sessionId with
    | some r =>
      let object := l.gate.objects a.sessionId
      let f := l.fittings object
      (l.fit object { f with clients := f.clients ++ [ws] }).attend host uuid ws a true r
    | none =>
      let r := initializeBootstrapState (host.isoText a.now) (Gateway.autoSession host ws h)
      let gate := (l.gate.create a.sessionId).put a.sessionId r
      let l := { l with gate := gate }.fit (gate.objects a.sessionId) (autoFittings ws)
      l.attend host uuid ws a false r
  else { l with gate := l.gate.turnAway ws h }

end Lobby

end Telepty.Registry
