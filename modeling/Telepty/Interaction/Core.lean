import Telepty.Infra.OrdMap
import Telepty.Interaction.Request

/-!
# The interaction core

`createInteractionCore` on one daemon. A call of `act` runs synchronously up to its next `await`:
the commit of a record or the dispatch. An event is one such run, or something that happens outside
of the core: a submitted record becomes durable (`land`), the store fails, is recovered or opened
again, the daemon restarts. Events come in any order, which covers every interleaving.

`commitLedger` resolves `true` only for a record that is durable, `false` only for one that was not
written, and `'indeterminate'` for one that was or was not. A record whose commit was indeterminate
while the store was down may still turn up when the store is recovered; the ledger is not readable
before it is open again. What was committed and what was dispatched is recorded in order.
-/

namespace Telepty.Interaction

open Infra

/-! ## Records -/

inductive Stage where
  | prepared
  | refused
  | dispatched
  | written
  | outcomeUnknown
  deriving DecidableEq

structure Record where
  actionId : Text
  requestDigest : Text
  interactionRequestId : Text
  sid : Text
  request : Json
  pendingInjectId : Option Text
  stage : Stage
  reason : Option Text
  terminal : Bool
  /-- `null` while it is not known -/
  bytesWritten : Option Nat
  receiptSeq : Nat
  updatedAt : Nat

structure Receipt where
  actionId : Text
  requestDigest : Text
  interactionRequestId : Text
  sid : Text
  stage : Stage
  reason : Option Text
  terminal : Bool
  bytesWritten : Option Nat
  receiptSeq : Nat
  pendingInjectId : Option Text
  updatedAt : Nat

def publicReceipt (r : Record) : Receipt where
  actionId := r.actionId
  requestDigest := r.requestDigest
  interactionRequestId := r.interactionRequestId
  sid := r.sid
  stage := r.stage
  reason := r.reason
  terminal := r.terminal
  bytesWritten := r.bytesWritten
  receiptSeq := r.receiptSeq
  pendingInjectId := r.pendingInjectId
  updatedAt := r.updatedAt

/-- `refusal(reason, extra)`, which is always terminal. -/
structure Refusal where
  reason : Text
  stage : Stage
  bytesWritten : Option Nat
  /-- `storage_outcome: 'indeterminate'` -/
  indeterminate : Bool
  actionId : Option Text

def refusal (reason : Text) : Refusal := ⟨reason, .refused, some 0, false, none⟩

/-- What `act` resolves to. -/
inductive Answer where
  | receipt (r : Receipt)
  | refusal (r : Refusal)

/-! ## Calls -/

/-- What `commitLedger` resolves to: `true`, `false` or `'indeterminate'`. -/
inductive Committed where
  | yes
  | no
  | indeterminate
  deriving DecidableEq

/-- A `saveRecord` under way. -/
structure Commit where
  record : Record
  pending : Option Json
  /-- the ledger could be read, so the change was given to `commitLedger` -/
  submitted : Bool
  /-- the change is durable -/
  landed : Bool

/-- Which of its commits an `act` awaits. -/
inductive Purpose where
  | prepare
  | refuse
  | dispatch
  | finish
  deriving DecidableEq

inductive Phase where
  | committing (purpose : Purpose) (c : Commit)
  | dispatching (record : Record)
  | returned (answer : Answer)
  /-- the daemon it ran in is gone -/
  | lost

structure Call where
  request : Json
  phase : Phase
  /-- the record of its last commit, when that may still turn up -/
  adrift : Option Commit

namespace Call

def actionId (c : Call) : Text := c.request.textField "action_id"

def sid (c : Call) : Text := sidOf c.request

def inFlight (c : Call) : Bool :=
  match c.phase with
  | .committing _ _ | .dispatching _ => true
  | _ => false

end Call

structure Dispatch where
  call : Nat
  actionId : Text
  sid : Text
  deriving DecidableEq

structure World where
  /-- `readLedger()` answers the ledger -/
  available : Bool
  actions : OrdMap Text Record
  pending : OrdMap Text Json
  active : List Text
  calls : List Call
  committed : List Record
  dispatches : List Dispatch

namespace World

def initial : World := ⟨true, .empty, .empty, [], [], [], []⟩

/-- `uncertain(sid)` of a ledger that can be read -/
def uncertain (w : World) (sid : Text) : Bool :=
  w.actions.values.any fun r => r.sid = sid && (r.stage = .dispatched || r.stage = .outcomeUnknown)

def setCall (w : World) (i : Nat) (c : Call) : World := { w with calls := w.calls.set i c }

/-- The change of a commit is durable and part of what `readLedger` answers. -/
def recordCommit (w : World) (c : Commit) : World :=
  { w with
    actions := w.actions.set c.record.actionId c.record
    pending := match c.pending with
      | some p => w.pending.set (p.textField "inject_id") p
      | none => w.pending
    committed := w.committed ++ [c.record] }

/-- `saveRecord(record, pending)`, up to its `await` -/
def saveRecord (w : World) (i : Nat) (c : Call) (purpose : Purpose) (record : Record)
    (pending : Option Json) : World :=
  w.setCall i { c with phase := .committing purpose ⟨record, pending, w.available, false⟩ }

/-- The call resolves, after `finally { active.delete(sid); }`. -/
def finish (w : World) (i : Nat) (c : Call) (a : Answer) (adrift : Option Commit) : World :=
  { w with active := w.active.filter (· ≠ c.sid) }.setCall i
    { c with phase := .returned a, adrift := adrift }

end World

/-! ## The beginning of a call -/

/-- A call of `act`, with what its environment answers before the first `await`. -/
structure Ask where
  request : Json
  /-- `authorize(principal, r)` -/
  authorized : Bool
  /-- `reserveAct(sid)` -/
  reserved : Bool
  /-- `binding(sid)` -/
  binding : Json
  /-- `pendingTask(sid, r.pending_inject_id)` -/
  pendingTask : Json
  now : Nat

namespace Ask

def actionId (a : Ask) : Text := a.request.textField "action_id"

def sid (a : Ask) : Text := sidOf a.request

/-- The parked task that goes with the request, as it is retained. -/
def retained (a : Ask) (w : World) : Except Text (Option Json) :=
  let r := a.request
  if !own r "pending_inject_id" then .ok none
  else if !truthy a.pendingTask
      || !same (a.pendingTask.field "payload_digest") (r.field "payload_digest") then
    .error "payload_conflict"
  else if !isText (fun s => byteLength s ≤ 1048576) (member a.pendingTask "payload")
      || payloadDigest (a.pendingTask.textField "payload") ≠ r.textField "payload_digest" then
    .error "payload_conflict"
  else
    let pending := (((a.pendingTask.set "identity" (member r "identity")).set "binding"
      a.binding).set "state" (.str "held")).set "retained_at" (.num a.now)
    match w.pending.get? (r.textField "pending_inject_id") with
    | none => .ok (some pending)
    | some prior =>
      if !same (prior.field "payload_digest") (pending.field "payload_digest")
          || digest (member prior "identity") ≠ digest (member r "identity")
          || !same ((member prior "binding").field "session_epoch")
            (a.binding.field "session_epoch") then .error "payload_conflict"
      else .ok (some prior)

/-- What the first commit is asked to persist, after the session was made active. -/
def prepare (a : Ask) (w : World) : Except Text (Record × Option Json) :=
  let r := a.request
  if !truthy a.binding || !same (a.binding.field "sid") (some (.str a.sid))
      || !same (a.binding.field "session_epoch") ((member r "expected").field "session_epoch") then
    .error "wrong_owner"
  else if (member r "identity").textField "kind" = "task" && taskFields.any fun k =>
      !same (a.binding.field k) ((member r "identity").field k) then .error "wrong_attempt"
  else (a.retained w).map fun pending =>
    (⟨a.actionId, digest r, r.textField "interaction_request_id", a.sid, r,
      if own r "pending_inject_id" then some (r.textField "pending_inject_id") else none,
      .prepared, none, false, some 0, 1, a.now⟩, pending)

/-- The checks before the session is made active: an answer ends the call. -/
def admission (a : Ask) (w : World) : Option Answer :=
  let error := validateRequest a.request a.now
  let refused (reason : Text) : Option Answer := some (.refusal (refusal reason))
  match error.filter fun e => e ≠ ("expired" : Text) with
  | some reason => refused reason
  | none =>
    if !a.authorized then refused "authority_required"
    else if !w.available then refused "storage_unavailable"
    else
      match w.actions.get? a.actionId with
      | some record =>
        if record.requestDigest = digest a.request then some (.receipt (publicReceipt record))
        else refused "payload_conflict"
      | none =>
        match error with
        | some reason => refused reason
        | none =>
          if 10000 ≤ w.actions.size then refused "busy"
          else if a.sid ∈ w.active ∨ w.uncertain a.sid then refused "busy"
          else if !a.reserved then refused "busy"
          else none

end Ask

/-- `act(r, principal)`, up to its first `await`. -/
def World.act (w : World) (a : Ask) : World :=
  let answered (answer : Answer) : World :=
    { w with calls := w.calls ++ [⟨a.request, .returned answer, none⟩] }
  match a.admission w with
  | some answer => answered answer
  | none =>
    match a.prepare w with
    | .error reason => answered (.refusal (refusal reason))
    | .ok (record, pending) =>
      { w with
        active := a.sid :: w.active
        calls := w.calls ++
          [⟨a.request, .committing .prepare ⟨record, pending, w.available, false⟩, none⟩] }

/-! ## The later runs of a call -/

/-- What the environment answers in the run that follows a commit. -/
structure Reply where
  observation : Json
  binding : Json
  now : Nat

/-- What the promise of `dispatch` settles to. -/
inductive Result where
  | value (j : Json)
  | thrown

/-- `transition(record, stage, extra)`, up to its `saveRecord` -/
def transition (r : Record) (stage : Stage) (reason : Option Text) (terminal : Bool)
    (bytesWritten : Option Nat) (now : Nat) : Record :=
  { r with
    stage := stage, reason := reason, terminal := terminal, bytesWritten := bytesWritten
    receiptSeq := r.receiptSeq + 1, updatedAt := now }

def storageRefusal (saved : Committed) : Refusal :=
  { refusal "storage_unavailable" with indeterminate := saved = .indeterminate }

/-- A dispatch was made and its final stage could not be persisted. -/
def finishRefusal (saved : Committed) (actionId : Text) : Refusal :=
  { storageRefusal saved with
    stage := .outcomeUnknown, bytesWritten := none, actionId := some actionId }

/-- The final record of an action whose dispatch settled to `result`. -/
def finalRecord (r : Record) (result : Result) (now : Nat) : Record :=
  let unknown := transition r .outcomeUnknown (some "outcome_unknown") true none now
  match result with
  | .thrown => unknown
  | .value j =>
    if j.textField "stage" = "refused" && same (j.field "bytes_written") (some (.num 0))
        && oneOf refusals (member j "reason") then
      transition r .refused (some (j.textField "reason")) true (some 0) now
    else if j.textField "stage" = "written" && safeFrom 1 (member j "bytes_written")
        && (member j "bytes_written").toNumber ≤ 8192
        && same (some (member j "reason")) (some .null) then
      transition r .written none false (some (j.natField "bytes_written")) now
    else unknown

/-- A commit can resolve so. -/
def Commit.admits (c : Commit) : Committed → Bool
  | .yes => c.landed
  | .no => !c.landed
  | .indeterminate => c.submitted

namespace World

/-- The record of an indeterminate commit may turn up later when the store is down. -/
def adriftAfter (w : World) (c : Commit) (saved : Committed) : Option Commit :=
  if saved = .indeterminate ∧ c.landed = false ∧ w.available = false then some c else none

/-- The run that follows the commit `c` of call `i`. -/
def resume (w : World) (i : Nat) (call : Call) (purpose : Purpose) (c : Commit) (saved : Committed)
    (reply : Reply) : World :=
  match purpose, saved with
  | .prepare, .yes =>
    match validateObservation call.request reply.observation reply.binding reply.now with
    | some reason =>
      w.saveRecord i call .refuse
        (transition c.record .refused (some reason) true c.record.bytesWritten reply.now) none
    | none =>
      w.saveRecord i call .dispatch
        (transition c.record .dispatched c.record.reason c.record.terminal none reply.now) none
  | .refuse, .yes | .finish, .yes =>
    w.finish i call (.receipt (publicReceipt c.record)) none
  | .dispatch, .yes =>
    World.setCall { w with dispatches := w.dispatches ++ [⟨i, call.actionId, call.sid⟩] } i
      { call with phase := .dispatching c.record }
  | .finish, saved =>
    w.finish i call (.refusal (finishRefusal saved call.actionId)) (w.adriftAfter c saved)
  | _, saved => w.finish i call (.refusal (storageRefusal saved)) (w.adriftAfter c saved)

end World

/-! ## Events -/

inductive Event where
  | act (a : Ask)
  /-- the change that call `i` submitted becomes durable -/
  | land (i : Nat)
  /-- the commit that call `i` awaits resolves -/
  | resolve (i : Nat) (saved : Committed) (reply : Reply)
  /-- the dispatch that call `i` awaits settles -/
  | settle (i : Nat) (result : Result) (now : Nat)
  /-- the store is down -/
  | fail
  /-- recovery finds the adrift change of call `i` -/
  | recover (i : Nat)
  /-- the store is open; what recovery has not found is gone -/
  | reopen
  /-- the daemon ends and another one starts -/
  | restart

/-- The daemon of a call is gone. -/
def Call.cut (c : Call) : Call := if c.inFlight then { c with phase := .lost } else c

/-- One event; one that cannot happen changes nothing. -/
def step (w : World) : Event → World
  | .act a => w.act a
  | .land i =>
    match w.calls[i]? with
    | some call =>
      match call.phase with
      | .committing purpose c =>
        if c.submitted ∧ c.landed = false then
          (w.recordCommit c).setCall i
            { call with phase := .committing purpose { c with landed := true } }
        else w
      | _ => w
    | none => w
  | .resolve i saved reply =>
    match w.calls[i]? with
    | some call =>
      match call.phase with
      | .committing purpose c =>
        if c.admits saved then w.resume i call purpose c saved reply else w
      | _ => w
    | none => w
  | .settle i result now =>
    match w.calls[i]? with
    | some call =>
      match call.phase with
      | .dispatching record =>
        w.saveRecord i call .finish (finalRecord record result now) none
      | _ => w
    | none => w
  | .fail => { w with available := false }
  | .recover i =>
    match w.calls[i]? with
    | some call =>
      match call.adrift with
      | some c =>
        if w.available then w else (w.recordCommit c).setCall i { call with adrift := none }
      | none => w
    | none => w
  | .reopen =>
    { w with available := true, calls := w.calls.map fun c => { c with adrift := none } }
  | .restart => { w with available := false, active := [], calls := w.calls.map Call.cut }

def run (w : World) (events : List Event) : World := events.foldl step w

end Telepty.Interaction
