import Telepty.Infra.Action
import Telepty.Interaction.Request
import Telepty.Mailbox.Terminal

/-!
# The bridge of one session

`createAllowSecurityContext`: the process between the daemon and the child of a session. It writes
the inject frames of the daemon to the child's terminal, at once where the child is idle and nothing
waits, and otherwise through a mailbox of its own, which it empties in batches. A batch is written by
delivery timers, one for each record.

One child is modelled. The clock is read many times in one turn, so an environment numbers the
readings; it numbers the mailbox calls and the writes to the child likewise, and says which of them
throw, a mailbox call after any number of its appends. What the grid of the terminal shows, and
whether output looks like a prompt, comes with the event. `canWrite` is tested once in a turn:
nothing within it changes `handoffPending` or `closed`.

`frames`, `written` and `receipts` are history variables, and so are the numbers of the frames that
`queuedAs`, the timers and the writes carry.
-/

namespace Telepty.Bridge

open Infra Mailbox
open Interaction (utf16Length)

/-! ## Frames and receipts -/

/-- The ids an inject frame carries, `none` for a missing one and for one that is no string. -/
structure Ids where
  daemonMsgId : Option Text
  injectId : Option Text
  part : Option Text
  pair : Option Text
  ownerGeneration : Option Text
  deriving DecidableEq

def Ids.none : Ids := ⟨.none, .none, .none, .none, .none⟩

/-- `boundedId(value)` -/
def boundedId (value : Text) : Bool :=
  value ≠ [] && utf16Length value ≤ 128 && value.all fun c => 0x1F < c.toNat && c.toNat ≠ 0x7F

/-- `PARTS` -/
def parts : List Text := ["body", "submit"]

/-- `frameMeta(source)` -/
def frameMeta (source : Ids) : Ids where
  daemonMsgId := source.daemonMsgId.filter boundedId
  injectId := source.injectId.filter boundedId
  part := source.part.filter (· ∈ parts)
  pair := source.pair.filter boundedId
  ownerGeneration := source.ownerGeneration.filter boundedId

/-- The ids as the details of a dead letter. -/
def Ids.details (ids : Ids) : Option Json :=
  let members := optional "daemon_msg_id" (ids.daemonMsgId.map .str) <|
    optional "inject_id" (ids.injectId.map .str) <| optional "part" (ids.part.map .str) <|
    optional "pair" (ids.pair.map .str) <|
    optional "owner_generation" (ids.ownerGeneration.map .str) []
  if members.isEmpty then .none else some (.obj members)

structure Frame where
  data : Text
  ids : Ids

/-- The text of a submit, `'\r'`. -/
def cr : Text := ['\r']

inductive Stage where
  | queued
  | withheld
  | ptyWritten
  | quarantined
  | refused
  | unknown
  deriving DecidableEq

inductive Certainty where
  | notWritten
  | written
  | unknown
  deriving DecidableEq

/-- A receipt, whether or not the owner socket takes it. -/
structure Receipt where
  msgId : Option Text
  ids : Ids
  stage : Stage
  certainty : Certainty
  reason : Option Text
  atMs : Nat

/-! ## The state -/

inductive RecordState where
  | pending
  | inFlight
  | unknown
  deriving DecidableEq

/-- What the bridge remembers of a record in its mailbox. -/
structure Record where
  ids : Ids
  createdMs : Nat
  isCr : Bool
  state : RecordState
  withheld : Option Text
  pairRefused : Bool

/-- A delivery timer. -/
structure Timer where
  due : Nat
  msgId : Text
  text : Text
  ids : Ids
  number : Option Nat

/-- An inject text that `child.write` took, with the record it was read from and the number of its
frame. -/
structure Written where
  msgId : Option Text
  text : Text
  number : Option Nat
  deriving DecidableEq

structure Context where
  handoffPending : Bool
  closed : Bool
  supervised : Bool
  ownerUp : Bool
  promptReady : Bool
  firstReadyObserved : Bool
  lastUserInputTime : Nat
  lastOutputAt : Option Nat
  bridgePendingCount : Nat
  bridgeMsgSeq : Nat
  queueFlushTimer : Bool
  idleCheckTimer : Bool
  mailbox : Files
  bridgeRecords : OrdMap Text Record
  unwrittenBodies : List Text
  unwrittenBodyAdjacentAt : Option Nat
  adjacentQueuedBody : Option Text
  refusedIdlessBodyAt : Option Nat
  /-- in the order of their creation -/
  deliveryTimers : List Timer
  /-- `none` for `-Infinity` -/
  deliveryTailAt : Option Nat
  /-- how often the clock was read, the mailbox called and the child written to -/
  reads : Nat
  calls : Nat
  writes : Nat
  /-- the texts of the frames handed over, in the order of their arrival -/
  frames : List Text
  /-- the number of the frame that was queued as a record -/
  queuedAs : List (Text × Nat)
  written : List Written
  receipts : List Receipt

/-- The state over the mailbox its predecessor left. -/
def Context.fresh (mailbox : Files) : Context where
  handoffPending := false
  closed := false
  supervised := false
  ownerUp := false
  promptReady := false
  firstReadyObserved := false
  lastUserInputTime := 0
  lastOutputAt := none
  bridgePendingCount := 0
  bridgeMsgSeq := 0
  queueFlushTimer := false
  idleCheckTimer := false
  mailbox := mailbox
  bridgeRecords := .empty
  unwrittenBodies := []
  unwrittenBodyAdjacentAt := none
  adjacentQueuedBody := none
  refusedIdlessBodyAt := none
  deliveryTimers := []
  deliveryTailAt := none
  reads := 0
  calls := 0
  writes := 0
  frames := []
  queuedAs := []
  written := []
  receipts := []

/-! ## The environment -/

/-- What becomes of a mailbox call. -/
inductive Fate where
  | performed
  /-- it throws after as many writes -/
  | failed (writes : Nat)
  deriving DecidableEq

structure Env where
  /-- the reading of each number, in milliseconds -/
  clock : Nat → Nat
  fate : Nat → Fate
  /-- whether the write to the child of each number throws -/
  writeThrows : Nat → Bool

/-- What the process was started with. -/
structure Setup where
  sessionId : Text
  /-- `shared.knownAiCli` -/
  knownAiCli : Bool
  /-- `VT_READY_ENABLED` -/
  vtReady : Bool
  /-- `READY_SETTLE_MS` -/
  readySettleMs : Nat
  /-- `STALL_MS` -/
  stallMs : Nat
  /-- `bridgeInjectTtlSecs(process.env)` -/
  injectTtlSecs : Nat

/-- `READY_SETTLE_MS`, `STALL_MS` and `DEFAULT_TTL_SECS` as they are by default. -/
def Setup.default (sessionId : Text) (knownAiCli : Bool) : Setup :=
  ⟨sessionId, knownAiCli, true, 750, 15000, 600⟩

/-- `IDLE_THRESHOLD` -/
def idleThreshold : Nat := 2000

/-- `RECORD_INDEX_MAX` -/
def recordIndexMax : Nat := 4096

/-- `UNWRITTEN_MAX` -/
def unwrittenMax : Nat := 256

/-- What the detector says of the grid. -/
inductive Verdict where
  | ready
  | notReady (reason : Text)

abbrev Act (α : Type) := Action Unit Context α

variable (env : Env) (cfg : Setup)

/-- `now()` -/
def now : Act Nat := fun b => .ok (env.clock b.reads) { b with reads := b.reads + 1 }

/-- The time of the next reading in seconds. -/
def Context.secs (b : Context) : Int := (env.clock b.reads / 1000 : Nat)

/-- The state after a call of the mailbox, `crash` where the call stops. -/
def Context.called (c : Call) (crash : Option Crash) (b : Context) : Context :=
  { b with
    reads := b.reads + 1
    calls := b.calls + 1
    mailbox := Step.after cfg.sessionId .default ⟨b.secs env, c, crash⟩ b.mailbox }

/-- A call of the bridge's mailbox. -/
def mailboxCall (c : Call) : Act Answer := fun b =>
  match env.fate b.calls with
  | .performed =>
    match (perform cfg.sessionId .default (b.secs env) b.mailbox c).1 with
    | .threw => .error () (b.called env cfg c none)
    | answer => .ok answer (b.called env cfg c none)
  | .failed writes => .error () (b.called env cfg c (some ⟨writes, none⟩))

/-- `child.write(text)` -/
def childWrite (w : Written) : Act Unit := fun b =>
  if env.writeThrows b.writes then .error () { b with writes := b.writes + 1 }
  else .ok () { b with writes := b.writes + 1, written := b.written ++ [w] }

/-! ## Reports -/

/-- `canWrite(child)` -/
def Context.canWrite (b : Context) : Bool := !b.handoffPending && !b.closed

/-- `sendReceipt(msgId, meta, stage, certainty, reason)` -/
def sendReceipt (msgId : Option Text) (ids : Ids) (stage : Stage) (certainty : Certainty)
    (reason : Option Text) : Act Unit := do
  let atMs ← now env
  modify fun b => { b with receipts := b.receipts ++ [⟨msgId, ids, stage, certainty, reason, atMs⟩] }

def setRecord (msgId : Text) (r : Record) : Act Unit :=
  modify fun b => { b with bridgeRecords := b.bridgeRecords.set msgId r }

/-- `rememberRecord(msgId, meta, isCr)` -/
def rememberRecord (msgId : Text) (ids : Ids) (isCr : Bool) : Act Unit := do
  let createdMs ← now env
  modify fun b =>
    let records :=
      match b.bridgeRecords.keys with
      | oldest :: _ =>
        if recordIndexMax ≤ b.bridgeRecords.size then b.bridgeRecords.delete oldest
        else b.bridgeRecords
      | [] => b.bridgeRecords
    { b with bridgeRecords := records.set msgId ⟨ids, createdMs, isCr, .pending, none, false⟩ }

/-- `rememberUnwritten(daemonMsgId)` -/
def rememberUnwritten (daemonMsgId : Option Text) : Act Unit :=
  match daemonMsgId with
  | none => pure ()
  | some id => modify fun b =>
    let bodies := if id ∈ b.unwrittenBodies then b.unwrittenBodies else b.unwrittenBodies ++ [id]
    { b with unwrittenBodies := if unwrittenMax < bodies.length then bodies.drop 1 else bodies }

/-- The ids of a record, none where it is not known. -/
def idsOf (record : Option Record) : Ids := (record.map (·.ids)).getD .none

/-- What `quarantine` does once the mailbox has answered whether it moved the message. -/
def noteQuarantine (msgId reason : Text) (record : Option Record) (certainty : Certainty)
    (moved : Bool) : Act Unit := do
  if record.isSome then
    modify fun b => { b with bridgeRecords := b.bridgeRecords.delete msgId }
  if moved then
    if record.any fun r => !r.isCr then
      rememberUnwritten (idsOf record).daemonMsgId
      if certainty = .notWritten then
        let at_ ← now env
        modify fun b => { b with unwrittenBodyAdjacentAt := some at_ }
    sendReceipt env (some msgId) (idsOf record) .quarantined certainty (some reason)

/-- `quarantine(msgId, reason, certainty, { inFlight, deliveryUncertain })`, `none` where the mailbox
threw. -/
def quarantine (msgId reason : Text) (certainty : Certainty) (inFlight deliveryUncertain : Bool) :
    Act (Option Bool) := do
  let record := (← get).bridgeRecords.get? msgId
  match ← (mailboxCall env cfg
      (.withdraw msgId reason ⟨inFlight, deliveryUncertain, (idsOf record).details⟩)).attempt with
  | some (.flag moved) =>
    noteQuarantine env msgId reason record certainty moved
    return some moved
  | _ => return none

/-! ## Readiness -/

/-- `frameVerdict()`, `none` where the grid does not decide. -/
def frameVerdict (view : Verdict) (b : Context) : Option Verdict :=
  if b.supervised || !cfg.knownAiCli || !cfg.vtReady then none else some view

/-- `unobservedReason()` -/
def unobservedReason (b : Context) : Text :=
  if b.firstReadyObserved then "ready_unobserved" else "first_ready_unobserved"

/-- `userInputRecent()` -/
def userInputRecent : Act Bool := do
  let t ← now env
  return t - (← get).lastUserInputTime ≤ idleThreshold

/-- `withholdReason()` -/
def withholdReason (view : Verdict) : Act Text := do
  let b ← get
  if b.handoffPending then return "handoff_pending"
  if b.supervised then
    if ← userInputRecent env then return "user_input_recent"
    if b.closed then return "session_closed"
    if !b.ownerUp then return "owner_transport_unavailable"
    return "delivery_pending"
  match frameVerdict cfg view b with
  | some (.notReady reason) => return reason
  | verdict =>
    if verdict.isSome || b.promptReady then
      if ← userInputRecent env then return "user_input_recent"
    return unobservedReason b

/-- `isIdle()` -/
def isIdle : Act Bool := do
  let b ← get
  if b.handoffPending then return false
  if b.supervised || b.promptReady then
    let t ← now env
    return idleThreshold < t - b.lastUserInputTime
  return false

/-! ## Pairs -/

/-- The loop of `withdrawPairedSubmits` over the records behind the body. -/
def withdrawPairedSubmits (bodyId : Option Text) : List (Text × Record) → Act Unit
  | [] => pure ()
  | (crId, submit) :: rest => do
    let pending := ((← get).bridgeRecords.get? crId).any fun r => r.state = .pending
    let paired := pending && submit.isCr &&
      (match bodyId with
      | some id => submit.ids.pair = some id
      | none => submit.ids.pair.isNone)
    if paired then
      if (← quarantine env cfg crId "pair_unwritten" .notWritten false false) = some true then
        modify fun b => { b with bridgePendingCount := b.bridgePendingCount - 1 }
    if bodyId.isSome then withdrawPairedSubmits bodyId rest

/-- The loop of `maintainPendingRecords` over the records that were pending at its start, with the
`reason` it found so far. -/
def maintainFrom (view : Verdict) (reason : Option Text) :
    List (Text × Record) → Act (Option Text)
  | [] => pure reason
  | (msgId, _) :: rest => do
    match (← get).bridgeRecords.get? msgId with
    | none => maintainFrom view reason rest
    | some record =>
      if record.state ≠ .pending then maintainFrom view reason rest else do
      let age := (← now env) - record.createdMs
      if cfg.injectTtlSecs * 1000 < age then
        if (← quarantine env cfg msgId "expired_unwritten" .notWritten false false) = some true then
          modify fun b => { b with bridgePendingCount := b.bridgePendingCount - 1 }
          if !record.isCr then withdrawPairedSubmits env cfg record.ids.daemonMsgId rest
        maintainFrom view reason rest
      else if cfg.stallMs ≤ age && !record.pairRefused then
        let why ← match reason with
          | some r => pure r
          | none => withholdReason env cfg view
        if record.withheld ≠ some why then
          setRecord msgId { record with withheld := some why }
          sendReceipt env (some msgId) record.ids .withheld .notWritten (some why)
        maintainFrom view (some why) rest
      else maintainFrom view reason rest

def pendingRecords (b : Context) : List (Text × Record) :=
  b.bridgeRecords.entries.filter fun e => e.2.state = .pending

/-- `maintainPendingRecords()` -/
def maintainPendingRecords (view : Verdict) : Act Unit := do
  let _ ← maintainFrom env cfg view none (pendingRecords (← get))

/-- The record of the body that a refused submit belongs to. -/
def bodyOf (ids : Ids) (b : Context) : Option Text :=
  match ids.pair with
  | none => b.adjacentQueuedBody
  | some pair => (b.bridgeRecords.entries.find? fun e => e.2.ids.daemonMsgId = some pair).map (·.1)

/-- `withdrawPairedBody(ids)` -/
def withdrawPairedBody (ids : Ids) : Act Unit := do
  match bodyOf ids (← get) with
  | none => pure ()
  | some bodyId =>
    match (← get).bridgeRecords.get? bodyId with
    | none => pure ()
    | some body =>
      if body.isCr || body.state = .unknown then pure ()
      else if body.state = .pending then do
        match ← quarantine env cfg bodyId "pair_refused" .notWritten false false with
        | some true => modify fun b => { b with bridgePendingCount := b.bridgePendingCount - 1 }
        | some false => pure ()
        | none => do
          setRecord bodyId { body with pairRefused := true, withheld := some "pair_refused" }
          sendReceipt env (some bodyId) body.ids .withheld .notWritten (some "pair_refused")
      else setRecord bodyId { body with pairRefused := true }

/-! ## The flush -/

/-- Why the filter drops a message. -/
inductive Drop where
  | stale
  | duplicate
  deriving DecidableEq

/-- The loop of the filter: every message with the reason it is dropped for, and `last` the last
payload that is delivered. -/
def filterFrom (ttlSecs nowSecs : Int) (last : Option Text) :
    List Message → List (Message × Option Drop)
  | [] => []
  | m :: rest =>
    if ttlSecs < nowSecs - m.createdAt then
      (m, some .stale) :: filterFrom ttlSecs nowSecs last rest
    else if last = some m.payload then
      (m, some .duplicate) :: filterFrom ttlSecs nowSecs last rest
    else (m, none) :: filterFrom ttlSecs nowSecs (some m.payload) rest

/-- `filterBridgeBatch(batch, { ttlSecs, nowSecs })`: a message without a reason is delivered. -/
def filterBridgeBatch (batch : List Message) (ttlSecs nowSecs : Int) :
    List (Message × Option Drop) :=
  filterFrom ttlSecs nowSecs none batch

/-- `record.state = state`, where the record of the message is known. -/
def setState (msgId : Text) (state : RecordState) : Act Unit := do
  match (← get).bridgeRecords.get? msgId with
  | none => pure ()
  | some r => setRecord msgId { r with state := state }

/-- The dequeues of a flush. `fuel` bounds their number. -/
def dequeueAll : Nat → Act (List Message)
  | 0 => pure []
  | fuel + 1 => do
    match ← mailboxCall env cfg .dequeue with
    | .message (some m) =>
      setState m.msgId .inFlight
      return m :: (← dequeueAll fuel)
    | _ => return []

/-- More dequeues than the mailbox can answer with a message: each leaves one fewer pending, and a
row that a crash tore can swallow one of their marks. -/
def dequeueBound (f : Files) : Nat := countPending f.journal + 2

/-- The dead letters of the messages that the filter dropped. -/
def dropAll : List (Message × Option Drop) → Act Unit
  | [] => pure ()
  | (_, none) :: rest => dropAll rest
  | (m, some why) :: rest => do
    let _ ← quarantine env cfg m.msgId
      (if why = .duplicate then "bridge_duplicate" else "expired_unwritten") .notWritten true false
    dropAll rest

def numberOf (b : Context) (msgId : Text) : Option Nat := assoc msgId b.queuedAs

/-- The timers of a batch: `previous` is the message before, `delay` the delay of the next timer. -/
def scheduleAll (droppedIds : List Text) (previous : Option Message) (delay : Nat) :
    List (Message × Option Drop) → Act Unit
  | [] => pure ()
  | (m, some _) :: rest => scheduleAll droppedIds (some m) delay rest
  | (m, none) :: rest => do
    let b ← get
    let record := b.bridgeRecords.get? m.msgId
    let ids := idsOf record
    let alone :=
      match ids.pair with
      | some pair => pair ∈ b.unwrittenBodies
      | none => previous.any fun p => p.payload ≠ cr && p.msgId ∈ droppedIds
    if m.payload = cr && alone then
      let _ ← quarantine env cfg m.msgId "pair_unwritten" .notWritten true false
      scheduleAll droppedIds (some m) delay rest
    else if record.any (·.pairRefused) then
      let _ ← quarantine env cfg m.msgId "pair_refused" .notWritten true false
      scheduleAll droppedIds (some m) delay rest
    else
      let created ← now env
      let tail ← now env
      modify fun b => { b with
        deliveryTimers := b.deliveryTimers ++
          [⟨created + delay, m.msgId, m.payload, ids, numberOf b m.msgId⟩]
        deliveryTailAt := some (max (b.deliveryTailAt.getD 0) (tail + delay)) }
      scheduleAll droppedIds (some m) (if m.payload = cr then delay else delay + 100) rest

/-- The delay of the first timer of a batch. -/
def firstDelay : Act Nat := do
  if (← get).deliveryTimers.isEmpty then return 0
  let t ← now env
  return (← get).deliveryTailAt.getD 0 - t + 1

/-- `flushBridgeMailbox()` -/
def flushBridgeMailbox : Act Unit := do
  if !(← get).canWrite then return
  modify fun b => { b with queueFlushTimer := false, idleCheckTimer := false }
  if (← get).bridgePendingCount = 0 then return
  let delay ← firstDelay env
  let batch ← dequeueAll env cfg (dequeueBound (← get).mailbox)
  if batch.isEmpty then
    modify fun b => { b with bridgePendingCount := 0 }
    return
  let nowSecs := (← now env) / 1000
  let judged := filterBridgeBatch batch cfg.injectTtlSecs (nowSecs : Nat)
  dropAll env cfg judged
  scheduleAll env cfg ((judged.filter (·.2.isSome)).map (·.1.msgId)) none delay judged
  modify fun b => { b with
    bridgePendingCount := b.bridgePendingCount - batch.length
    promptReady := false }

/-- The callback of a delivery timer. -/
def deliver (t : Timer) : Act Unit := do
  if !(← get).canWrite then return
  if ((← get).bridgeRecords.get? t.msgId).any (·.pairRefused) then
    let _ ← quarantine env cfg t.msgId "pair_refused" .notWritten true false
    return
  match ← (childWrite env ⟨some t.msgId, t.text, t.number⟩).attempt with
  | none =>
    setState t.msgId .unknown
    sendReceipt env (some t.msgId) t.ids .unknown .unknown (some "write_threw")
    throw ()
  | some () =>
    modify fun b => { b with
      bridgeRecords := b.bridgeRecords.delete t.msgId
      unwrittenBodyAdjacentAt := none }
    sendReceipt env (some t.msgId) t.ids .ptyWritten .written none
    let _ ← (mailboxCall env cfg (.ack t.msgId .none)).attempt

/-! ## Timers of the queue -/

/-- `armBridgeTick()` -/
def armBridgeTick : Act Unit := modify fun b =>
  if b.canWrite then { b with idleCheckTimer := true } else b

/-- `scheduleIdleFlush()` -/
def scheduleIdleFlush : Act Unit := do
  let b ← get
  if !b.canWrite || b.idleCheckTimer then return
  armBridgeTick
  if !cfg.knownAiCli then modify fun b => { b with queueFlushTimer := true }

/-- `onReady()` of the output relay. -/
def onReady : Act Unit := do
  if (← get).handoffPending then return
  modify fun b => { b with promptReady := true, firstReadyObserved := true }
  flushBridgeMailbox env cfg

/-- `probeFrameReady()` -/
def probeFrameReady (view : Verdict) : Act Unit := do
  let b ← get
  if b.handoffPending then return
  match b.lastOutputAt with
  | none => return
  | some at_ =>
    if (← now env) - at_ < cfg.readySettleMs then return
    if ← userInputRecent env then return
    match frameVerdict cfg view (← get) with
    | some .ready => onReady env cfg
    | _ => return

/-- `bridgeTick()`, without the report it ends with. -/
def bridgeTick (view : Verdict) : Act Unit := do
  if (← get).closed then return
  maintainPendingRecords env cfg view
  if 0 < (← get).bridgePendingCount then
    if ← isIdle env then flushBridgeMailbox env cfg
    else if !(← get).supervised then probeFrameReady env cfg view
  modify fun b =>
    if (pendingRecords b).isEmpty && b.bridgePendingCount = 0 then { b with idleCheckTimer := false }
    else b

/-! ## Inject frames -/

/-- `${sessionId}:${now()}:${seq}` -/
def bridgeMsgId (sessionId : Text) (ms seq : Nat) : Text :=
  sessionId ++ ':' :: natText ms ++ ':' :: natText seq

/-- `idlessCrAdjacentToUnwritten()` -/
def idlessCrAdjacentToUnwritten (b : Context) : Bool :=
  b.unwrittenBodyAdjacentAt.any fun at_ => !(at_ < b.lastUserInputTime)

/-- `writeDirectInject(text, meta)` for the frame `number`. -/
def writeDirectInject (text : Text) (meta_ : Ids) (number : Nat) : Act Bool := do
  let b ← get
  if !b.canWrite then return false
  let ids := frameMeta meta_
  let alone :=
    match ids.pair with
    | some pair => pair ∈ b.unwrittenBodies
    | none => idlessCrAdjacentToUnwritten b
  if text = cr && alone then
    sendReceipt env none ids .refused .notWritten (some "pair_unwritten")
    return false
  childWrite env ⟨none, text, some number⟩
  modify fun b => { b with
    unwrittenBodyAdjacentAt := none
    adjacentQueuedBody := none
    refusedIdlessBodyAt := none }
  sendReceipt env none ids .ptyWritten .written none
  return true

/-- The state after the next record id was made, for the frame `number`. -/
def Context.named (ms number : Nat) (b : Context) : Context :=
  { b with
    bridgeMsgSeq := b.bridgeMsgSeq + 1
    queuedAs := b.queuedAs ++ [(bridgeMsgId cfg.sessionId ms (b.bridgeMsgSeq + 1), number)] }

/-- What follows an enqueue that the mailbox refused. -/
def noteRefused (msgId text : Text) (ids : Ids) : Act Unit := do
  if text ≠ cr then
    rememberUnwritten ids.daemonMsgId
    let at_ ← now env
    modify fun b => { b with unwrittenBodyAdjacentAt := some at_ }
  sendReceipt env (some msgId) ids .refused .notWritten (some "mailbox_unavailable")
  if text = cr then withdrawPairedBody env cfg ids
  modify fun b => { b with adjacentQueuedBody := none }
  if text ≠ cr && ids.daemonMsgId.isNone then
    let at_ ← now env
    modify fun b => { b with refusedIdlessBodyAt := some at_ }
  else modify fun b => { b with refusedIdlessBodyAt := none }

/-- What follows an enqueue that the mailbox made. -/
def noteQueued (msgId text : Text) (ids : Ids) : Act Unit := do
  rememberRecord env msgId ids (text = cr)
  modify fun b => { b with
    adjacentQueuedBody := if text ≠ cr && ids.daemonMsgId.isNone then some msgId else none
    refusedIdlessBodyAt := none
    bridgePendingCount := b.bridgePendingCount + 1 }
  sendReceipt env (some msgId) ids .queued .notWritten none

/-- `enqueueBridgeMessage(text, meta)` for the frame `number`. -/
def enqueueBridgeMessage (text : Text) (meta_ : Ids) (number : Nat) : Act Unit := do
  if !(← get).canWrite then return
  let ms ← now env
  modify (Context.named cfg ms number)
  let msgId := bridgeMsgId cfg.sessionId ms (← get).bridgeMsgSeq
  let createdAt : Int := ((← now env) / 1000 : Nat)
  match ← (mailboxCall env cfg
      (.enqueue ⟨msgId, some "daemon", cfg.sessionId, text, createdAt, 0, none⟩)).attempt with
  | none => noteRefused env cfg msgId text (frameMeta meta_)
  | some _ => noteQueued env msgId text (frameMeta meta_)

/-- `handleOwnerInject(msg)` -/
def handleOwnerInject (f : Frame) : Act Unit := do
  if f.data = [] then return
  let number := (← get).frames.length
  modify fun b => { b with frames := b.frames ++ [f.data] }
  let b ← get
  let inFlightAhead := b.bridgePendingCount = 0 && !b.deliveryTimers.isEmpty
  if f.data = cr then
    if 0 < b.bridgePendingCount || inFlightAhead then
      if (frameMeta f.ids).pair.isNone &&
          b.refusedIdlessBodyAt.any fun at_ => !(at_ < b.lastUserInputTime) then
        modify fun b => { b with refusedIdlessBodyAt := none }
        sendReceipt env none (frameMeta f.ids) .refused .notWritten (some "pair_unwritten")
      else
        enqueueBridgeMessage env cfg f.data f.ids number
        let drains ← if inFlightAhead then pure true else isIdle env
        if drains then
          modify fun b => { b with queueFlushTimer := false }
          flushBridgeMailbox env cfg
        else scheduleIdleFlush cfg
    else
      let _ ← writeDirectInject env f.data f.ids number
  else
    let idle ← isIdle env
    if idle && b.bridgePendingCount = 0 && b.deliveryTimers.isEmpty then
      if ← writeDirectInject env f.data f.ids number then
        modify fun b => { b with promptReady := false }
    else
      enqueueBridgeMessage env cfg f.data f.ids number
      scheduleIdleFlush cfg

/-! ## Start and end -/

/-- The loop of `recoverBridgeMailbox`: how many own records are pending. -/
def recoverFrom : List Summary → Act Nat
  | [] => pure 0
  | s :: rest => do
    if (← get).bridgeRecords.has s.msgId then
      let own ← recoverFrom rest
      return if s.state = .pending then own + 1 else own
    let inFlight := s.state = .inFlight
    let _ ← quarantine env cfg s.msgId
      (if inFlight then "recovered_in_flight_unknown" else "recovered_previous_bridge")
      (if inFlight then .unknown else .notWritten) inFlight inFlight
    recoverFrom rest

def Summary.live (s : Summary) : Bool := s.state = .pending || s.state = .inFlight

/-- `recoverBridgeMailbox()` -/
def recoverBridgeMailbox : Act Unit := do
  if (← get).closed then return
  match ← (mailboxCall env cfg .peek).attempt with
  | some (.messages rows) => do
    let own ← recoverFrom env cfg (rows.filter Summary.live)
    modify fun b => { b with bridgePendingCount := own }
    if 0 < own then armBridgeTick
  | _ => return

/-- The loop of `quarantineAtExit`. -/
def quarantineRows : List Summary → Act Bool
  | [] => pure true
  | s :: rest => do
    let held := ((← get).bridgeRecords.get? s.msgId).any fun r => r.state = .inFlight
    let known := s.state = .pending || held
    let moved ← quarantine env cfg s.msgId
      (if known then "bridge_exit_unwritten" else "bridge_exit_in_flight_unknown")
      (if known then .notWritten else .unknown) (s.state = .inFlight) !known
    let complete ← quarantineRows rest
    return moved = some true && complete

/-- `quarantineAtExit()` -/
def quarantineAtExit : Act Bool := do
  match ← (mailboxCall env cfg .peek).attempt with
  | some (.messages rows) => quarantineRows env cfg (rows.filter Summary.live)
  | _ => return false

/-- `closeAllowSession({ destroySession })` -/
def closeAllowSession (destroySession : Bool) : Act Unit := do
  if (← get).closed then return
  let custodyKept ← if destroySession then quarantineAtExit env cfg else pure false
  modify fun b => { b with
    closed := true
    deliveryTimers := []
    queueFlushTimer := false
    idleCheckTimer := false }
  if custodyKept then
    let _ ← (mailboxCall env cfg .purge).attempt

/-- `cooperativeQueueEmpty()`, as far as the bridge itself can tell. -/
def cooperativeQueueEmpty (b : Context) : Bool :=
  b.canWrite && b.deliveryTimers.isEmpty && b.bridgePendingCount = 0 && !b.queueFlushTimer

/-! ## Runs -/

inductive Event where
  /-- an inject frame of the owner -/
  | inject (f : Frame)
  /-- output of the child, `ready` where it looks like a prompt -/
  | output (ready : Bool)
  /-- a keystroke -/
  | userInput
  | tick (view : Verdict)
  /-- the safety fallback of the queue -/
  | flushTimeout
  /-- the delivery timer that is due first fires -/
  | deliver
  | ownerSocket (up : Bool)
  | supervision (on : Bool)
  /-- the daemon asks for the handoff of an empty queue -/
  | handoff
  /-- the child of the handoff could not be stopped -/
  | handoffRefused
  | close (destroySession : Bool)

/-- The timer that is due first, the oldest of those due at the same time, and the others. -/
def takeDue : List Timer → Option (Timer × List Timer)
  | [] => none
  | t :: rest =>
    match takeDue rest with
    | none => some (t, [])
    | some (u, others) => if u.due < t.due then some (u, t :: others) else some (t, rest)

/-- The turn an event causes. A closed bridge does nothing more; `cli.js` drops frames, keystrokes
and readiness while a handoff is pending. -/
def Event.turn : Event → Act Unit
  | .inject f => do
    if (← get).canWrite then handleOwnerInject env cfg f
  | .output ready => do
    if (← get).closed then return
    let at_ ← now env
    modify fun b => { b with lastOutputAt := some at_ }
    if ready && !(← get).supervised then onReady env cfg
  | .userInput => do
    if !(← get).canWrite then return
    let at_ ← now env
    modify fun b => { b with lastUserInputTime := at_ }
  | .tick view => do
    if (← get).idleCheckTimer then bridgeTick env cfg view
  | .flushTimeout => do
    if !(← get).queueFlushTimer then return
    modify fun b => { b with queueFlushTimer := false }
    if 0 < (← get).bridgePendingCount then flushBridgeMailbox env cfg
  | .deliver => do
    match takeDue (← get).deliveryTimers with
    | none => return
    | some (t, others) =>
      modify fun b => { b with deliveryTimers := others }
      Bridge.deliver env cfg t
  | .ownerSocket up => modify fun b => { b with ownerUp := up }
  | .supervision on => modify fun b => { b with supervised := on }
  | .handoff => modify fun b => if cooperativeQueueEmpty b then { b with handoffPending := true } else b
  | .handoffRefused => modify fun b => { b with handoffPending := false }
  | .close destroySession => closeAllowSession env cfg destroySession

/-- A bridge that starts: the mailbox is recovered before the first frame. -/
def start (mailbox : Files) : Context := (recoverBridgeMailbox env cfg).after (.fresh mailbox)

/-- The bridge after an event. An error that a turn throws ends the turn. -/
def step (b : Context) (e : Event) : Context := (e.turn env cfg).after b

def run (b : Context) (events : List Event) : Context := events.foldl (step env cfg) b

end Telepty.Bridge
