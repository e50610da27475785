import Telepty.Ledger.Accounting
import Telepty.Ledger.Owner

/-!
# The ledger client

`createLedgerClient` of the main thread. An event is one synchronous run of its code: a call, a
message or the exit of an owner, or the continuation of an `open()` or a `close()` that waited for
something. Events come in any order, which covers every interleaving.

A message carries the generation of the owner that sent it, as the handlers of `spawnWorker` do.
What the client has answered (`settled`, `answered`) and posted to an owner (`posted`) is recorded.
-/

namespace Telepty.LedgerClient

open Infra Ledger

/-! ## The read model -/

/-- `C.readModel`, without the identity objects. -/
structure ReadModel where
  records : OrdMap Text Json
  bySession : OrdMap Text (List Text)
  actions : OrdMap Text Json
  pending : OrdMap Text Json

namespace ReadModel

/-- `emptyModel()` -/
def empty : ReadModel := ⟨.empty, .empty, .empty, .empty⟩

/-- `setModelRecord(model, record)` -/
def setRecord (m : ReadModel) (record : Json) : ReadModel :=
  let id := record.textField "inject_id"
  let sid := sessionOf record
  let bySession := match m.records.get? id with
    | none => m.bySession
    | some prior =>
      if sessionOf prior = sid then m.bySession
      else HotSet.unindex m.bySession (sessionOf prior) id
  { m with records := m.records.set id record, bySession := HotSet.index bySession sid id }

/-- The record of an id is dropped, with the entry of its session. -/
def dropRecord (m : ReadModel) (id : Text) : ReadModel :=
  let bySession := match m.records.get? id with
    | none => m.bySession
    | some record =>
      let left := HotSet.unindex m.bySession (sessionOf record) id
      if idsOf left (sessionOf record) = [] then left.delete (sessionOf record) else left
  { m with records := m.records.delete id, bySession := bySession }

def setAction (m : ReadModel) (action : Json) (pending : Option Json) : ReadModel :=
  { m with
    actions := m.actions.set (action.textField "action_id") action
    pending := match pending with
      | some p => m.pending.set (p.textField "inject_id") p
      | none => m.pending }

/-- One item of a snapshot. -/
def addItem (m : ReadModel) (item : Json) : ReadModel :=
  let kind := item.textField "kind"
  let member (k : Text) : Json := (item.field k).getD .null
  if kind = "record" then m.setRecord (member "record")
  else if kind = "action" then
    { m with actions := m.actions.set ((member "action").textField "action_id") (member "action") }
  else if kind = "pending" then
    { m with pending := m.pending.set ((member "pending").textField "inject_id") (member "pending") }
  else m

/-- `{ ...rec, observation_seq, last_observation, observations, tracking_state }` -/
def withEntry (record entry : Json) (trackingState : Text) : Json :=
  let r := ((record.set "observation_seq" ((entry.field "seq").getD .null)).set
    "last_observation" entry).set "observations"
    (.arr (capObservations (observationsOf record ++ [entry])))
  if trackingState = [] then r else r.set "tracking_state" (.str trackingState)

/-- One effect of an acknowledged frame. -/
def applyEffect (m : ReadModel) (e : Effect) : ReadModel :=
  match e.record with
  | some record => m.setRecord record
  | none =>
    match m.records.get? e.id, e.entry with
    | some record, some entry => m.setRecord (withEntry record entry e.trackingState)
    | _, _ => m

/-- `applyEffects(effects)` -/
def applyEffects (m : ReadModel) (effects : List Effect) : ReadModel := effects.foldl applyEffect m

/-- `getTrackedInjection(id)` -/
def getTrackedInjection (m : ReadModel) (id : Text) : Option Json :=
  if id = [] ∨ id ∈ (["__proto__", "prototype", "constructor"] : List Text) then none
  else m.records.get? id

def isTracked (record : Json) : Bool := record.textField "tracking_state" = "tracked"

end ReadModel

/-! ## The memory of the client -/

/-- `C.state` -/
inductive Status where
  | notOpened
  | lockPresent
  | store (s : StoreState)
  deriving DecidableEq

/-- What the promise of a submission resolves to. -/
inductive Outcome where
  | ack (a : Ack)
  | nack (reason code : Text)
  | rejectedAdmission (cls reason detail : Text)
  | indeterminate (reason : Text)

/-- A submission that waits for an owner, with the unit it was admitted on. -/
structure Inflight where
  kind : Text
  grant : Grant
  id : Option Text
  delta : Json

/-- A submission that may or may not be durable; `settled` is what a later owner resolved it to. -/
structure Unresolved where
  kind : Text
  id : Option Text
  reason : Text
  settled : Text

/-- Where the one `open()` under way stands. -/
inductive Opening where
  | none
  /-- awaits `C.lockDurable` -/
  | lock
  /-- the outcome of the lock is known -/
  | answered (held : Bool)
  /-- awaits `old.terminate()` -/
  | terminate
  /-- `C.openResolve` is set -/
  | owner
  /-- its promise has resolved and `C.opening` is still set -/
  | finishing
  deriving DecidableEq

/-- Where the one `close()` under way stands; `C.closeInFlight` unless `none`. -/
inductive Closing where
  | none
  | lock
  /-- `C.closedResolve` is set -/
  | owner
  | terminate
  | finishing
  deriving DecidableEq

/-- What the creation of the lock file answers. -/
inductive LockAnswer where
  | held
  /-- created; its record is still being written -/
  | pending
  | refused (reason : Text)

structure Client where
  status : Status
  reason : Text
  epoch : Nat
  lockHeld : Bool
  lockPending : Bool
  closing : Bool
  closePhase : Closing
  worker : Option Nat
  workerGen : Nat
  opening : Opening
  /-- the respawns that wait for the failed open to be finished -/
  respawnDue : Nat
  respawns : List Nat
  pendingAvailable : Bool
  openedOnce : Bool
  liveSids : List Text
  readModel : ReadModel
  nextModel : Option ReadModel
  inflight : OrdMap Text Inflight
  reads : List Text
  unresolved : OrdMap Text Unresolved
  accounting : Accounting
  settled : List (Text × Outcome)
  answered : List (Text × List Json × Text)
  posted : List (Nat × Message)

structure ClientOptions where
  digests : Digests
  maxPerWindow : Nat
  windowMs : Nat

namespace Client

def initial (liveSids : List Text) : Client where
  status := .notOpened
  reason := []
  epoch := 0
  lockHeld := false
  lockPending := false
  closing := false
  closePhase := .none
  worker := none
  workerGen := 0
  opening := .none
  respawnDue := 0
  respawns := []
  pendingAvailable := false
  openedOnce := false
  liveSids := liveSids
  readModel := .empty
  nextModel := none
  inflight := .empty
  reads := []
  unresolved := .empty
  accounting := .initial
  settled := []
  answered := []
  posted := []

def isAvailable (c : Client) : Bool := c.status = .store .available && !c.closing

/-- `postToOwner(m)` -/
def post (m : Message) (c : Client) : Client :=
  match c.worker with
  | some gen => { c with posted := c.posted ++ [(gen, m)] }
  | none => c

/-! ## Settling -/

/-- The promise of a submission resolves. -/
def settle (txn : Text) (outcome : Outcome) (c : Client) : Client :=
  { c with settled := c.settled ++ [(txn, outcome)] }

/-- `C.inflight.delete(txn)` and the release of its unit. -/
def take (txn : Text) (i : Inflight) (c : Client) : Client :=
  { c with
    inflight := c.inflight.delete txn
    accounting := c.accounting.release i.grant.cls i.grant.bytes i.grant.jobId i.grant.reserved }

/-- `accounting.releaseJob(id)` of an id that may be `null`. -/
def releaseJob (id : Option Text) (c : Client) : Client :=
  match id with
  | none => c
  | some id => { c with accounting := c.accounting.releaseJob id }

/-- `resolveIndeterminate(txn, inflight, reason)` -/
def resolveIndeterminate (reason : Text) (txn : Text) (i : Inflight) (c : Client) : Client :=
  let c := c.take txn i
  let c := if c.unresolved.size < poolTotals.entries then
    { c with unresolved := c.unresolved.set txn ⟨i.kind, i.id, reason, []⟩ } else c
  c.settle txn (.indeterminate reason)

/-- `for (const [txn, inflight] of C.inflight) resolveIndeterminate(...)` -/
def resolveAll (reason : Text) (c : Client) : Client :=
  c.inflight.entries.foldl (fun c e => c.resolveIndeterminate reason e.1 e.2) c

/-- The promise of a read resolves. -/
def answer (req : Text) (items : List Json) (reason : Text) (c : Client) : Client :=
  { c with reads := c.reads.filter (· ≠ req), answered := c.answered ++ [(req, items, reason)] }

/-- `for (const [, read] of C.reads) read.resolve({ items: [], reason }); C.reads.clear()` -/
def clearReads (reason : Text) (c : Client) : Client :=
  c.reads.foldl (fun c req => c.answer req [] reason) c

/-! ## Submission -/

/-- `unavailableOutcome(txn).reason` -/
def unavailableReason (c : Client) : Text :=
  match c.status with
  | .lockPresent => "lock_present"
  | .store .recovering => "recovering"
  | .store .unavailableRead => "unavailable_read"
  | .store .unavailableWrite => "unavailable_write"
  | _ => if c.closing then "shutting_down" else if c.reason = [] then "unavailable" else c.reason

/-- `{ t: kind, epoch: 0, seq: 0, txn, ...delta }` -/
def provisionalFrame (txn kind : Text) (delta : Json) : Json :=
  let members := match delta with
    | .obj members => members
    | _ => []
  members.foldl (fun j e => j.set e.1 e.2)
    (.obj [("t", .str kind), ("epoch", .num 0), ("seq", .num 0), ("txn", .str txn)])

/-- `RESULT_KINDS` -/
def resultKinds : List Text :=
  ["inject_parked", "session_process_exited", "session_dead", "idle_quiet_observed",
    "task_idle_unconfirmed", "ready_frame_observed"]

/-- `classify(kind, observation, { result })` -/
def classify (kind : Text) (observation : Option Json) (result : Bool) : Text :=
  if kind = "state" then "T"
  else if kind = "fact" ∨ kind = "reheat" then "L"
  else if kind = "iact" then "I"
  else if kind = "begin" then "T"
  else if kind = "obs" then
    let emittedVia := observation.bind (·.field "emitted_via")
    if result then "R"
    else if isTruthy emittedVia ∧ emittedVia.bind Json.asText ≠ some "transition".toList then "R"
    else if (observation.elim [] (·.textField "kind")) ∈ resultKinds then "R"
    else "O"
  else "O"

/-- The options of `submit`; an empty text is an absent one. -/
structure SubmitOpts where
  cls : Text
  jobId : Text
  result : Bool

def jobIdOf (kind : Text) (delta : Json) (opts : SubmitOpts) : Option Text :=
  if opts.jobId ≠ [] then some opts.jobId
  else if kind ∈ (["begin", "state", "obs", "reheat"] : List Text) then
    (delta.field "id").bind Json.asText
  else none

/-- The bytes that a submission other than a begin asks for. -/
def reserveBytes (cls : Text) (bytes : Nat) : Nat :=
  match Class.ofText cls with
  | none | some .L | some .I => bytes
  | some _ => max bytes poolUnit

/-- `submit(kind, delta, opts)` under the transaction id it makes. -/
def submit (o : ClientOptions) (txn kind : Text) (delta : Json) (opts : SubmitOpts) (t : Nat)
    (c : Client) : Client :=
  if c.isAvailable = false then c.settle txn (.nack c.unavailableReason c.reason)
  else
    let bytes := (encodeFrame o.digests (provisionalFrame txn kind delta)).length
    if frameCap kind < bytes then c.settle txn (.nack "frame_too_large" [])
    else
      let jobId := jobIdOf kind delta opts
      if kind = "begin" ∧ jobId.any c.accounting.hasJob = false then
        c.settle txn (.rejectedAdmission "T" "tracking_capacity_exhausted" "reserve_job_first")
      else
        let cls : Text :=
          if kind = "begin" then "T"
          else if opts.cls ≠ [] then opts.cls
          else classify kind (delta.field "observation") opts.result
        let size := if kind = "begin" then bytes else reserveBytes cls bytes
        let r := c.accounting.admitUnit cls (some size) jobId t
        let c := { c with accounting := r.2 }
        match Account.granted r.1 (some size) jobId with
        | [] => c.settle txn (.rejectedAdmission (if r.1.cls = [] then cls else r.1.cls)
            r.1.reason r.1.detail)
        | g :: _ =>
          let i : Inflight := ⟨kind, g, (delta.field "id").bind Json.asText, delta⟩
          { c with inflight := c.inflight.set txn i }.post (.submit ⟨txn, kind, delta⟩)

/-- `reserveJob(id)`; `free` is what the free-space hint answers. -/
def reserveJob (id : Text) (free : Bool) (t : Nat) (c : Client) : Bool × Client :=
  if c.isAvailable = false then (false, c)
  else if free = false then (false, c)
  else
    let r := c.accounting.reserveJob id t
    (r.1.ok, { c with accounting := r.2 })

/-! ## Reads -/

/-- `readRequest(message)` under the request id it makes. -/
def readRequest (req : Text) (m : Message) (c : Client) : Client :=
  if c.worker.isNone ∨ c.status ∈ [.notOpened, .lockPresent, .store .closed] then
    c.answer req [] c.unavailableReason
  else { c with reads := c.reads ++ [req] }.post m

/-- `live(sid, on)` -/
def live (sid : Text) (on : Bool) (c : Client) : Client :=
  { c with
    liveSids := if on then (if sid ∈ c.liveSids then c.liveSids else c.liveSids ++ [sid])
      else c.liveSids.filter (· ≠ sid) }.post (.live sid on)

/-! ## The lock -/

/-- `lockRefused(result)` -/
def lockRefused (reason : Text) (c : Client) : Client :=
  { c with
    status := if reason = "lock_present" then .lockPresent else .store .unavailable
    reason := reason }

/-- `acquireLock()` -/
def acquireLock (answer : LockAnswer) (c : Client) : Client :=
  if c.lockHeld || c.lockPending then c
  else
    match answer with
    | .refused reason => c.lockRefused reason
    | _ => { c with lockHeld := true }

/-- `releaseLock()`; `released` is what the lock module answers. -/
def releaseLock (released : Bool) (c : Client) : Client :=
  { c with lockHeld := c.lockHeld && !released }

/-- `C.lockDurable` settles. -/
def lockSettled (refused : Option Text) (c : Client) : Client :=
  if c.lockPending = false then c
  else
    let c := { c with
      lockPending := false
      lockHeld := refused.isNone
      opening := if c.opening = .lock then .answered refused.isNone else c.opening }
    match refused with
    | some reason =>
      if c.closing = false ∧ c.status ≠ .store .closed then c.lockRefused reason else c
    | none => c

/-! ## Opening -/

/-- The owner is spawned and asked to open. -/
def startOwner (c : Client) : Client :=
  { c with
    opening := .owner
    nextModel := some .empty
    status := .store .recovering
    reason := []
    pendingAvailable := false
    workerGen := c.workerGen + 1
    worker := some (c.workerGen + 1) }.post (.open c.liveSids)

/-- The body of `open()` once the lock is held: a live owner is let go first. -/
def replaceOwner (c : Client) : Client :=
  match c.worker with
  | none => c.startOwner
  | some _ =>
    let c := { c with worker := none, workerGen := c.workerGen + 1, opening := .terminate }
    (c.resolveAll "owner_replaced").clearReads "owner_replaced"

/-- `open({ liveSids })`; `answer` is what the lock answers where it is asked for. -/
def openClient (liveSids : List Text) (answer : LockAnswer) (c : Client) : Client :=
  if c.opening ≠ .none ∨ c.closePhase ≠ .none then c
  else
    let asked : Option Client :=
      if c.lockHeld || c.lockPending then some c
      else
        match answer with
        | .held => some { c with lockHeld := true }
        | .pending => some { c with lockPending := true }
        | .refused _ => none
    match asked, answer with
    | none, .refused reason => c.lockRefused reason
    | none, _ => c
    | some c, _ =>
      let c := { c with
        liveSids := c.liveSids ++ liveSids.filter (· ∉ c.liveSids)
        closing := false }
      if c.lockHeld then c.replaceOwner
      else { c with
        status := .store .recovering, reason := [], pendingAvailable := false, opening := .lock }

/-- The continuation of `open()` after the lock's outcome. -/
def openContinues (c : Client) : Client :=
  match c.opening with
  | .answered held =>
    if c.closing = true ∨ held = false then { c with opening := .finishing } else c.replaceOwner
  | _ => c

/-- The continuation of `open()` after the termination of the owner before. -/
def openTerminated (c : Client) : Client :=
  if c.opening = .terminate then c.startOwner else c

/-- `C.opening = null` -/
def openFinished (c : Client) : Client :=
  if c.opening = .finishing then { c with opening := .none } else c

/-- `settleOpen(result)` -/
def settleOpen (c : Client) : Client :=
  if c.opening = .owner then { c with opening := .finishing } else c

/-! ## The exit of an owner -/

/-- `respawn()` -/
def respawn (o : ClientOptions) (answer : LockAnswer) (t : Nat) (c : Client) : Client :=
  if c.closing = true ∨ c.status = .store .closed ∨ c.worker.isSome ∨ c.opening ≠ .none then c
  else
    -- `t - x < windowMs`
    let recent := c.respawns.filter fun x => t < x + o.windowMs
    if o.maxPerWindow ≤ recent.length then { c with respawns := recent }
    else { c with respawns := recent ++ [t] }.openClient [] answer

/-- A respawn that waited for the failed open. -/
def respawnAfter (o : ClientOptions) (answer : LockAnswer) (t : Nat) (c : Client) : Client :=
  if c.respawnDue = 0 ∨ c.opening ≠ .none then c
  else { c with respawnDue := c.respawnDue - 1 }.respawn o answer t

/-- `onWorkerExit(code)` -/
def onWorkerExit (o : ClientOptions) (answer : LockAnswer) (t : Nat) (c : Client) : Client :=
  let why : Text := if c.closing then "shutting_down" else "owner_failed"
  let c := ({ c with worker := none }.resolveAll why).clearReads why
  if c.closing then { c with status := .store .closed }.settleOpen
  else
    let pending := c.opening ≠ .none
    let c := { c with
      status := .store .unavailable, reason := "owner_failed", pendingAvailable := false }.settleOpen
    if pending then { c with respawnDue := c.respawnDue + 1 } else c.respawn o answer t

/-! ## Messages of the owner -/

/-- `onState(m)` -/
def onState (store : StoreState) (reason : Text) (epoch : Nat) (c : Client) : Client :=
  let c := { c with reason := reason, epoch := if epoch = 0 then c.epoch else epoch }
  if store = .available then
    if c.opening = .owner then { c with pendingAvailable := true }
    else { c with status := .store .available, openedOnce := true }
  else
    let c := { c with status := .store store, pendingAvailable := false }
    if store = .unavailable ∨ store = .unavailableRead then c.settleOpen else c

/-- `rebuildAdmittedJobs()` -/
def rebuildAdmittedJobs (t : Nat) (c : Client) : Client :=
  (c.readModel.records.values.filter ReadModel.isTracked).foldl (fun c r =>
    { c with accounting := (c.accounting.reserveJob (r.textField "inject_id") t).2 }) c

/-- `onSnapshotChunk(m)` of the whole snapshot; `req` names the request that asks for what became
of the unresolved transactions. -/
def onSnapshotChunk (items : List Json) (req : Text) (t : Nat) (c : Client) : Client :=
  let model := items.foldl ReadModel.addItem (c.nextModel.getD .empty)
  let c := { c with readModel := model, nextModel := none }.rebuildAdmittedJobs t
  let c := if c.pendingAvailable then
    { c with pendingAvailable := false, status := .store .available, openedOnce := true } else c
  let c := c.settleOpen
  if c.unresolved.size = 0 then c else c.readRequest req (.resolve req c.unresolved.keys)

/-- What an acknowledgement of basis `written` does to the read model and the job. -/
def applyWritten (i : Inflight) (effects : List Effect) (c : Client) : Client :=
  let model := c.readModel.applyEffects effects
  let model := if i.kind = "iact" then
    model.setAction ((i.delta.field "action").getD .null) (Frame.truthyObject (i.delta.field "pending"))
    else model
  let c := { c with readModel := model }
  if i.kind = "state" then c.releaseJob i.id else c

/-- `onAck(m)` -/
def onAck (a : Ack) (c : Client) : Client :=
  match c.inflight.get? a.txn with
  | none => c
  | some i =>
    let c := c.take a.txn i
    let c := if a.basis = "written" then c.applyWritten i a.effects else c
    let c := if a.result = "already_terminal" ∧ i.kind = "state" then c.releaseJob i.id else c
    c.settle a.txn (.ack a)

/-- `onNack(m)` -/
def onNack (txn reason code : Text) (c : Client) : Client :=
  match c.inflight.get? txn with
  | none => c
  | some i =>
    let c := c.take txn i
    if reason ∈ (["hot_capacity", "tracking_capacity_exhausted"] : List Text) then
      c.settle txn (.rejectedAdmission i.grant.cls.text reason [])
    else c.settle txn (.nack reason code)

/-- One transaction of an indeterminate group. -/
def loseTxn (reason : Text) (c : Client) (txn : Text) : Client :=
  match c.inflight.get? txn with
  | some i => c.resolveIndeterminate (if reason = [] then "write_error" else reason) txn i
  | none => c

/-- `onIndeterminate(m)` -/
def onIndeterminate (txns : List Text) (reason : Text) (c : Client) : Client :=
  txns.foldl (loseTxn reason) c

/-- `onDemoted(m)` -/
def onDemoted (ids : List Text) (c : Client) : Client :=
  ids.foldl (fun c id =>
    { c with readModel := c.readModel.dropRecord id }.releaseJob (some id)) c

/-- `onReadChunk(m)` -/
def onReadChunk (req : Text) (items : List Json) (reason : Text) (c : Client) : Client :=
  if req ∈ c.reads then c.answer req items reason else c

/-- What `sendResolve` does with the answer. -/
def onResolved (items : List Json) (c : Client) : Client :=
  { c with
    unresolved := items.foldl (fun u item =>
      match u.get? (item.textField "txn") with
      | some x => u.set (item.textField "txn") { x with settled := item.textField "outcome" }
      | none => u) c.unresolved }

/-- `onClosed(m)`: the close goes on to terminate the owner. -/
def closeOwner (c : Client) : Client :=
  let c := { c with worker := none, workerGen := c.workerGen + 1, closePhase := .terminate }
  (c.resolveAll "shutting_down").clearReads "shutting_down"

def onClosed (c : Client) : Client := if c.closePhase = .owner then c.closeOwner else c

/-- `onMessage(m)` -/
def onMessage (req : Text) (t : Nat) (m : Post) (c : Client) : Client :=
  match m with
  | .state store reason _ epoch => c.onState store reason epoch
  | .snapshotChunk items => c.onSnapshotChunk items req t
  | .ack a => c.onAck a
  | .nack txn reason code => c.onNack txn reason code
  | .indeterminate txns reason => c.onIndeterminate txns reason
  | .readChunk req items reason _ => c.onReadChunk req items reason
  | .resolveChunk req items => if req ∈ c.reads then (c.onReadChunk req items []).onResolved items else c
  | .demoted ids _ => c.onDemoted ids
  | .progress _ _ => c
  | .closed _ _ => c.onClosed

/-! ## Closing -/

/-- `close()` once the lock is not pending. -/
def closeBody (released : Bool) (c : Client) : Client :=
  match c.worker with
  | some _ => { c with closePhase := .owner }.post .close
  | none => { c with
      status := .store .closed, pendingAvailable := false, closePhase := .finishing }.releaseLock released

/-- `close(deadlineMs)`; `released` is what the lock module answers. -/
def close (released : Bool) (c : Client) : Client :=
  if c.closing then c
  else
    let c := { c with closing := true }
    if c.lockPending then { c with closePhase := .lock } else c.closeBody released

/-- The continuation of `close()` after the lock's outcome. -/
def closeContinues (released : Bool) (c : Client) : Client :=
  if c.closePhase = .lock ∧ c.lockPending = false then c.closeBody released else c

/-- The continuation of `close()` after the termination of the owner. -/
def closeTerminated (released : Bool) (c : Client) : Client :=
  if c.closePhase = .terminate then
    { c with status := .store .closed, pendingAvailable := false, closePhase := .finishing }.releaseLock
      released
  else c

/-- `C.closeInFlight = false` -/
def closeFinished (c : Client) : Client :=
  if c.closePhase = .finishing then { c with closePhase := .none } else c

end Client

/-! ## Events -/

inductive Event where
  | acquireLock (answer : LockAnswer)
  | releaseLock (released : Bool)
  | lockSettled (refused : Option Text)
  | openClient (liveSids : List Text) (answer : LockAnswer)
  | openContinues
  | openTerminated
  | openFinished
  | respawnAfter (answer : LockAnswer) (t : Nat)
  | submit (txn kind : Text) (delta : Json) (opts : Client.SubmitOpts) (t : Nat)
  | reserveJob (id : Text) (free : Bool) (t : Nat)
  | releaseJob (id : Text)
  | reserveAct (sid : Text)
  | releaseAct (sid : Text)
  | read (req : Text) (op : ReadOp)
  | resolve (req : Text) (txns : List Text)
  | compact (req : Text)
  | live (sid : Text) (on : Bool)
  /-- a message of the owner of a generation; `req` is the id of a request it may lead to -/
  | message (gen : Nat) (m : Post) (req : Text) (t : Nat)
  | exit (gen : Nat) (answer : LockAnswer) (t : Nat)
  | close (released : Bool)
  | closeContinues (released : Bool)
  | closeDeadline
  | closeTerminated (released : Bool)
  | closeFinished

namespace Client

def step (o : ClientOptions) (c : Client) : Event → Client
  | .acquireLock answer => c.acquireLock answer
  | .releaseLock released => c.releaseLock released
  | .lockSettled refused => c.lockSettled refused
  | .openClient liveSids answer => c.openClient liveSids answer
  | .openContinues => c.openContinues
  | .openTerminated => c.openTerminated
  | .openFinished => c.openFinished
  | .respawnAfter answer t => c.respawnAfter o answer t
  | .submit txn kind delta opts t => c.submit o txn kind delta opts t
  | .reserveJob id free t => (c.reserveJob id free t).2
  | .releaseJob id => c.releaseJob (some id)
  | .reserveAct sid => { c with accounting := (c.accounting.reserveAct sid).2 }
  | .releaseAct sid => { c with accounting := c.accounting.releaseAct sid }
  | .read req op => c.readRequest req (.read req op)
  | .resolve req txns => c.readRequest req (.resolve req txns)
  | .compact req => c.readRequest req (.compact req)
  | .live sid on => c.live sid on
  | .message gen m req t => if gen = c.workerGen then c.onMessage req t m else c
  | .exit gen answer t => if gen = c.workerGen then c.onWorkerExit o answer t else c
  | .close released => c.close released
  | .closeContinues released => c.closeContinues released
  | .closeDeadline => if c.closePhase = .owner then c.closeOwner else c
  | .closeTerminated released => c.closeTerminated released
  | .closeFinished => c.closeFinished

def run (o : ClientOptions) (c : Client) (events : List Event) : Client := events.foldl (step o) c

end Client

end Telepty.LedgerClient
