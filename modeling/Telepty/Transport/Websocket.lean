import Telepty.Session.CredentialIndex

/-!
# The sockets of the sessions

The ordinary websocket transport of a daemon: connections, claims of ownership, messages and closes,
next to the routes that register, rename and destroy the records.

Sockets are numbered in the order in which they connect. A record object is named by the id under
which it was created and a number; `objects` says which object stands under an id. `log` is not part
of the program: it holds the claims, who lost its slot and which frames were served as the owner's.

What is sent over the sockets, their heartbeat, the clients of a session and the events of the bus are
left out, as is the state of the readiness handshake, whose verdicts come with a frame.
-/

namespace Telepty.Registry

open Infra
open Interaction (byteLength)

/-! ## State -/

/-- A connection, as its handlers see it. -/
structure Socket where
  sessionId : Text
  isOwnerConnect : Bool
  /-- `readyState === 1` -/
  isOpen : Bool
  /-- the handlers of its messages and of its close are installed -/
  attached : Bool

/-- A claim of ownership that passed the gate. -/
structure Claim where
  socket : Nat
  /-- the record object that was claimed -/
  object : Text × Nat
  sessionHoldsCredential : Bool
  provedSessionCredential : Bool
  ownerToken : Text
  ownerGeneration : Text
  saved : Saved
  deriving DecidableEq

/-- Under what a socket owns a record. -/
structure Stamp where
  object : Text × Nat
  ownerToken : Option Text
  ownerGeneration : Option Text
  deriving DecidableEq

def Claim.stamp (c : Claim) : Stamp := ⟨c.object, some c.ownerToken, some c.ownerGeneration⟩

inductive OwnerFact where
  | claimed (c : Claim)
  /-- the socket was displaced, detached or closed -/
  | lost (ws : Nat)
  /-- the session held a credential, which the socket did not prove -/
  | unproved (ws : Nat)
  /-- a frame of the socket was served as one of the owner -/
  | acted (ws : Nat) (stamp : Stamp)
  deriving DecidableEq

structure Gateway where
  reg : Context
  sockets : OrdMap Nat Socket
  /-- how many sockets have connected -/
  connected : Nat
  /-- how many calls of `crypto.randomUUID` were made for claims -/
  minted : Nat
  objects : Text → Text × Nat
  /-- how many records were created -/
  created : Nat
  log : List OwnerFact

namespace Gateway

/-- A daemon that starts over a session store. -/
def started (host : Host) (now : Nat) (reg : Context) : Gateway :=
  { reg := restart host now reg, sockets := .empty, connected := 0, minted := 0
    objects := fun id => (id, 0), created := 0, log := [] }

/-- `isOpenWebSocket(ws)` -/
def isOpen (g : Gateway) (ws : Option Nat) : Bool :=
  ws.any fun ws => (g.sockets.get? ws).any (·.isOpen)

def note (facts : List OwnerFact) (g : Gateway) : Gateway := { g with log := g.log ++ facts }

def put (id : Text) (r : SessionRecord) (g : Gateway) : Gateway := { g with reg := g.reg.put id r }

/-- `delete sessions[id]` -/
def forget (id : Text) (g : Gateway) : Gateway :=
  { g with reg := { g.reg with sessions := g.reg.sessions.delete id } }

/-- The record that is created next stands under the id. -/
def create (id : Text) (g : Gateway) : Gateway :=
  { g with
    objects := Function.update g.objects id (id, g.created + 1)
    created := g.created + 1 }

/-- `ws.close()`, before the peer has answered. -/
def shut (ws : Nat) (g : Gateway) : Gateway :=
  { g with sockets := match g.sockets.get? ws with
    | some s => g.sockets.set ws { s with isOpen := false }
    | none => g.sockets }

/-! ## Connecting -/

/-- What a connection brings. -/
structure Handshake where
  sessionId : Text
  /-- `?owner=1` -/
  owner : Bool
  /-- `?command=…` -/
  command : Option Text
  /-- `Number(owner_pid)`, where that is an integer -/
  ownerPid : Option Int
  bearer : Option Text
  capability : Option Text
  now : Nat
  /-- how the write of the session store ends -/
  saved : Saved

/-- The record that a connection makes where there is none. -/
def autoSession (host : Host) (ws : Nat) (h : Handshake) : SessionRecord :=
  let iso := host.isoText h.now
  { id := h.sessionId
    type := .str "wrapped"
    owningPrincipal := none
    externalApprovalPolicy := none
    requireOwnerProof := false
    authorityAudit := none
    authorityAuditInvalid := false
    leaseExpiresAt := none
    command := .str ((orText h.command none).getD "wrapped")
    cwd := .str host.cwd
    sshRemote := none
    backend := .null
    cmuxWorkspaceId := .null
    cmuxSurfaceId := .null
    termProgram := .null
    term := .null
    delivery := .null
    deliveryEndpoint := .null
    createdAt := iso
    lastActivityAt := some iso
    lastConnectedAt := some iso
    lastDisconnectedAt := none
    lastStateReportAt := none
    stateReport := .null
    idleTtl := none
    idleTtlMs := none
    cooperativeHandoffCapable := false
    cooperativeHandoff := none
    cooperativeHandoffAudit := none
    ownerPid := none
    ptyPid := none
    sessionEpoch := none
    credentialVerifier := none
    credentialGeneration := none
    bracketedPasteCapable := none
    provenanceCapable := false
    provenanceNonce := none
    inputPolicyPending := none
    inputPolicy := none
    supervisionRestorable := false
    grant := none
    restoredFromPersistence := false
    isClosing := false
    closeDurabilityPending := false
    ready := true
    bootstrapReady := false
    bootstrapReadyAt := none
    bootstrapReadyReason := none
    interactionOwnerGeneration := none
    ownerToken := none
    sessionEpochProved := none
    ownerWs := some ws
    ptyProcess := none }

/-- The socket is there, and its handlers are installed. -/
def attach (ws : Nat) (h : Handshake) (g : Gateway) : Gateway :=
  { g with sockets := g.sockets.set ws ⟨h.sessionId, h.owner, true, true⟩ }

/-- The connection is closed before its handlers are installed. -/
def turnAway (ws : Nat) (h : Handshake) (g : Gateway) : Gateway :=
  { g with sockets := g.sockets.set ws ⟨h.sessionId, h.owner, false, false⟩ }

/-- The record as a claim leaves it. -/
def claimedRecord (host : Host) (uuid : Nat → Text) (g : Gateway) (ws : Nat) (h : Handshake)
    (r : SessionRecord) : SessionRecord :=
  let iso := host.isoText h.now
  let verifiedClaimEpoch := ((g.reg.index.verify host.digest h.bearer).filter
    fun p => p.sid = h.sessionId).map (·.epoch)
  let r := { r with
    ownerWs := some ws
    sessionEpoch := verifiedClaimEpoch
    sessionEpochProved := verifiedClaimEpoch
    ownerPid := match h.ownerPid.filter (0 < ·) with
      | some pid => some pid.toNat
      | none => r.ownerPid
    ownerToken := some (uuid g.minted)
    interactionOwnerGeneration := some (uuid (g.minted + 1)) }
  let bound := Session.bindInputPolicy host.digest h.now (some h.capability) r.policyRecord
  let r := r.withPolicy bound.2
  let r := if bound.1 then
      { r with bootstrapReady := false, bootstrapReadyReason := none, ready := false }
    else r
  initializeBootstrapState iso (markSessionConnected iso r)

/-- Whoever held the slot before the socket, and is not the socket. -/
def predecessor (ws : Nat) (r : SessionRecord) : Option Nat := r.ownerWs.filter (· ≠ ws)

/-- The ownership transfer; `existing` says whether the record was there before the connection. -/
def claim (host : Host) (uuid : Nat → Text) (ws : Nat) (h : Handshake) (existing held proved : Bool)
    (r : SessionRecord) (g : Gateway) : Gateway :=
  let claimed := claimedRecord host uuid g ws h r
  let c : Claim := ⟨ws, g.objects h.sessionId, held, proved, uuid g.minted, uuid (g.minted + 1), h.saved⟩
  let g' := { g with
    reg := (g.reg.put h.sessionId claimed).persist host h.saved
    minted := g.minted + 2 }
  let left := (predecessor ws r).toList.map OwnerFact.lost
  if h.saved = .ok then
    let g' := (g'.attach ws h).note (left ++ [.claimed c])
    match predecessor ws r with
    | some displaced => if h.owner then g'.shut displaced else g'
    | none => g'
  else if h.saved.committed then
    -- the store names this owner; it is detached, and stale authority is not restored
    ((g'.put h.sessionId { claimed with ownerWs := none }).turnAway ws h).note
      (left ++ [.claimed c, .lost ws])
  else
    let g' := if existing then g'.put h.sessionId (rolledBack r claimed)
      else g'.forget h.sessionId
    (g'.turnAway ws h).note [.claimed c, .lost ws]

/-- The gate of the owner claim, and what follows it. -/
def attend (host : Host) (uuid : Nat → Text) (ws : Nat) (h : Handshake) (existing : Bool)
    (r : SessionRecord) (g : Gateway) : Gateway :=
  if r.isClosing then g.turnAway ws h
  else
    let held := g.reg.index.hasCredential h.sessionId
    let proved := held && g.reg.index.matchesSid host.digest h.sessionId h.bearer
    let mayClaimOwnership := !held || proved
    let g := if mayClaimOwnership then g else g.note [.unproved ws]
    if r.hasType "wrapped" && h.owner && held && !proved then g.turnAway ws h
    else if r.hasType "wrapped" && (r.ownerWs.isNone || h.owner) && mayClaimOwnership then
      g.claim host uuid ws h existing held proved r
    else g.attach ws h

/-- **`wss.on('connection', …)`** -/
def connect (host : Host) (uuid : Nat → Text) (h : Handshake) (g : Gateway) : Gateway :=
  let ws := g.connected
  let g := { g with connected := g.connected + 1 }
  match g.reg.sessions.get? h.sessionId with
  | some r => g.attend host uuid ws h true r
  | none =>
    let r := initializeBootstrapState (host.isoText h.now) (autoSession host ws h)
    ((g.create h.sessionId).put h.sessionId r).attend host uuid ws h false r

/-! ## Messages -/

/-- A message: what `JSON.parse` makes of it, and the verdicts of the readiness handshake. -/
structure Frame where
  message : Option Json
  now : Nat
  /-- the owner generation has negotiated the handshake -/
  negotiated : Bool
  /-- `input_transport_ready` of the generation has been accepted, this frame included -/
  transportReady : Bool

/-- What the handler serves: the type of the message, unless it throws or refuses the frame. -/
def Frame.served (f : Frame) : Option (Option Text) :=
  match f.message with
  | none | some .null => none
  | some message =>
    let type := (message.field "type").bind Json.asText
    if type = some ("input" : Text) ∧
        !((message.field "data").bind Json.asText).any (fun data => byteLength data ≤ 65536) then none
    else some type

/-- `markBootstrapReady(sessionId, session, reason)`, without the queue of the session. -/
def markBootstrapReady (iso : Text) (reason : Text) (f : Frame) (r : SessionRecord) : SessionRecord :=
  let r := initializeBootstrapState iso r
  if f.negotiated && (reason ≠ ("input_transport_ready" : Text) || !f.transportReady) then r
  else if !isBootstrapGatedSession r || r.bootstrapReady then r
  else
    { r with
      bootstrapReady := true, bootstrapReadyAt := some iso, bootstrapReadyReason := some reason
      ready := true }

/-- What a frame of the owner does to the members of the record. -/
def applyOwnerFrame (host : Host) (f : Frame) (type : Option Text) (r : SessionRecord) : SessionRecord :=
  let iso := host.isoText f.now
  if type = some ("output" : Text) then { r with lastActivityAt := some iso }
  else if type = some ("input_transport_ready" : Text) && f.transportReady then
    markBootstrapReady iso "input_transport_ready" f r
  else if type = some ("ready" : Text) then
    let r := if isBootstrapGatedSession r then markBootstrapReady iso "bridge_ready" f r
      else { r with ready := true }
    { r with lastActivityAt := some iso }
  else r

/-- The slot of the owner is free for the socket, which once asked to own the session. -/
def mayReadopt (g : Gateway) (ws : Nat) (s : Socket) (r : SessionRecord) : Bool :=
  r.hasType "wrapped" && s.isOwnerConnect && r.ownerWs ≠ some ws && !g.isOpen r.ownerWs

/-- The socket takes the free slot. -/
def readopt (host : Host) (ws : Nat) (id : Text) (f : Frame) (r : SessionRecord) (g : Gateway) : Gateway :=
  (g.put id (markSessionConnected (host.isoText f.now) { r with ownerWs := some ws })).note
    ((predecessor ws r).toList.map OwnerFact.lost)

/-- The frame is one of the owner, or of a viewer. -/
def serve (host : Host) (ws : Nat) (id : Text) (f : Frame) (type : Option Text) (g : Gateway) : Gateway :=
  match g.reg.sessions.get? id with
  | none => g
  | some r =>
    if r.hasType "wrapped" && r.ownerWs = some ws then
      (g.put id (applyOwnerFrame host f type r)).note
        [.acted ws ⟨g.objects id, r.ownerToken, r.interactionOwnerGeneration⟩]
    else g

/-- The handler of the record that stands under the id now. -/
def receive (host : Host) (ws : Nat) (s : Socket) (f : Frame) (type : Option Text) (r : SessionRecord)
    (g : Gateway) : Gateway :=
  if r.isClosing then g
  else if g.mayReadopt ws s r then
    (g.readopt host ws s.sessionId f r).serve host ws s.sessionId f type
  else g.serve host ws s.sessionId f type

/-- **`ws.on('message', …)`** -/
def message (host : Host) (ws : Nat) (f : Frame) (g : Gateway) : Gateway :=
  match g.sockets.get? ws, f.served with
  | some s, some type =>
    if s.attached then
      match g.reg.sessions.get? s.sessionId with
      | some r => g.receive host ws s f type r
      | none => g
    else g
  | _, _ => g

/-! ## Closes -/

/-- **`ws.on('close', …)`**, after which the socket is no more. -/
def closed (host : Host) (ws now : Nat) (saved : Saved) (g : Gateway) : Gateway :=
  let g' := { g with sockets := g.sockets.delete ws }
  match g.sockets.get? ws with
  | none => g
  | some s =>
    match g.reg.sessions.get? s.sessionId with
    | none => g'
    | some r =>
      if s.attached && r.hasType "wrapped" && r.ownerWs = some ws then
        let left := { r with
          ownerWs := none, lastDisconnectedAt := some (host.isoText now), ready := false }
        { g'.note [.lost ws] with reg := (g.reg.put s.sessionId left).persist host saved }
      else g'

/-! ## Runs -/

/-- The removal of a session that was disconnected for too long: its owner socket is not open. -/
def collect (host : Host) (saved : Saved) (id : Text) (g : Gateway) : Gateway :=
  match g.reg.sessions.get? id with
  | some r =>
    if (r.hasType "wrapped" || r.hasType "aterm") && !g.isOpen r.ownerWs then
      let removed := ({ g.reg with sessions := g.reg.sessions.delete id }).persist host saved
      { g with reg := if saved.committed then removed.revoke id else removed.put id r }
    else g
  | none => g

/-- `POST /api/sessions/register`; a record that it creates is a new object. -/
def register (host : Host) (call : Call) (g : Gateway) : Gateway :=
  let g' := { g with reg := (Registry.register host g.reg call).1 }
  match readIdentity call.body "session_id" with
  | .ok id => if g.reg.sessions.has id then g' else g'.create id
  | .error _ => g'

/-- `PATCH /api/sessions/:id`; a record that it moves stays the object that it was. -/
def rename (host : Host) (call : RenameCall) (g : Gateway) : Gateway :=
  let g' := { g with reg := (renameSession host g.reg call).1 }
  match call.resolved, readIdentity call.body "new_id" with
  | some old, .ok new =>
    if g.reg.sessions.has new then g'
    else { g' with objects := Function.update g.objects new (g.objects old) }
  | _, _ => g'

/-- What happens at a daemon. -/
inductive Traffic where
  | connect (h : Handshake)
  | message (ws : Nat) (f : Frame)
  /-- the connection of the socket begins to close -/
  | closing (ws : Nat)
  | closed (ws now : Nat) (saved : Saved)
  | register (call : Call)
  | rename (call : RenameCall)
  | takeover (call : TakeoverCall)
  /-- a session is destroyed -/
  | destroy (id : Text) (acknowledged : Bool) (saved : Saved)
  /-- the end of a teardown -/
  | remove (id : Text)
  | collect (id : Text) (saved : Saved)

def step (host : Host) (uuid : Nat → Text) (g : Gateway) : Traffic → Gateway
  | .connect h => g.connect host uuid h
  | .message ws f => g.message host ws f
  | .closing ws => g.shut ws
  | .closed ws now saved => g.closed host ws now saved
  | .register call => g.register host call
  | .rename call => g.rename host call
  | .takeover call => { g with reg := (Registry.takeover host g.reg call).1 }
  | .destroy id acknowledged saved =>
    { g with reg := (Event.close id acknowledged saved).apply host g.reg }
  | .remove id => { g with reg := removeClosed id g.reg }
  | .collect id saved => g.collect host saved id

def run (host : Host) (uuid : Nat → Text) (g : Gateway) (traffic : List Traffic) : Gateway :=
  traffic.foldl (step host uuid) g

end Gateway

end Telepty.Registry
