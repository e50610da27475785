import Telepty.Audit.Answers
import Telepty.Infra.Runs

/-!
# The reader of the audit log

`createAuditReader` gives every query a worker thread of its own, two at most, and a timer. A worker
posts what it found, fails, or ends; it is stopped by `terminate`, which may take long. What a worker
posted is handed on when its thread has ended, so that whoever asks again then finds the place free,
and when the timer fires before that.

A promise that is resolved again keeps its first value; `resolved` lists every call of `resolve`.
-/

namespace Telepty.Audit

open Infra

/-! ## Filters of a request -/

/-- A value of the options: absent, a scalar, or anything else. -/
inductive Given where
  | absent
  | scalar (s : Scalar)
  | other

inductive FilterKey where
  | since
  | before
  | target
  | sender
  | spoof
  | limit
  | cursor

/-- `String(scalar).length` -/
def Scalar.textLength (L : Language) (s : Scalar) : Nat := ((L.text s.value).getD []).length

/-- What `scalarFilters` makes of one value: nothing where it refuses the options. -/
def scalarFilter (L : Language) : Given → Option (Option Scalar)
  | .absent => some none
  | .scalar s => if 4096 < s.textLength L then none else some (some s)
  | .other => none

def scalarFilters (L : Language) (options : FilterKey → Given) : Option Filters := do
  let since ← scalarFilter L (options .since)
  let before ← scalarFilter L (options .before)
  let target ← scalarFilter L (options .target)
  let sender ← scalarFilter L (options .sender)
  let spoof ← scalarFilter L (options .spoof)
  let limit ← scalarFilter L (options .limit)
  let cursor ← scalarFilter L (options .cursor)
  some { since, before, target, sender, spoof, limit, cursor }

/-! ## Outcomes -/

/-- What a read comes back with; `error` is the same text for every failure. -/
inductive Outcome where
  | ok (json : Units)
  | failed (code : String) (status : Nat) (reason : String)
  deriving DecidableEq

/-- `result(code, status, reason)` with its defaults -/
def result (code : String) (status : Nat := 503) (reason : String := "query_unavailable") : Outcome :=
  .failed code status reason

/-- What a worker posts: a success or a failure that has the fields, or anything else. -/
inductive Message where
  | ok (json : Units)
  | failure (code reason : String)
  | other

/-- `WORKER_CODES` -/
def workerCodes : List String := ["AUDIT_QUERY_UNAVAILABLE", "AUDIT_QUERY_BUDGET_EXCEEDED"]

def reasons : List String :=
  ["file_unavailable", "not_regular_file", "file_bytes", "line_bytes", "reply_bytes",
    "file_changed_during_read", "read_failed"]

def Reason.text : Reason → String
  | .fileUnavailable => "file_unavailable"
  | .notRegularFile => "not_regular_file"
  | .fileBytes => "file_bytes"
  | .lineBytes => "line_bytes"
  | .replyBytes => "reply_bytes"
  | .fileChangedDuringRead => "file_changed_during_read"
  | .readFailed => "read_failed"

/-- The code that `failure` is called with. -/
def Reason.code : Reason → String
  | .fileBytes | .lineBytes | .replyBytes => "AUDIT_QUERY_BUDGET_EXCEEDED"
  | _ => "AUDIT_QUERY_UNAVAILABLE"

/-- `postMessage(query())` -/
def posted (L : Language) (filters : Filters) (file : Opened) : Message :=
  match query L filters file with
  | .ok json => .ok json
  | .error reason => .failure reason.code reason.text

/-- What the listener makes of a message. -/
def outcomeOf : Message → Outcome
  | .ok json =>
    if utf8Length json ≤ budgets.replyBytes then .ok json else result "AUDIT_QUERY_FAILED"
  | .failure code reason =>
    if code ∈ workerCodes ∧ reason ∈ reasons then result code 503 reason
    else result "AUDIT_QUERY_FAILED"
  | .other => result "AUDIT_QUERY_FAILED"

/-! ## Jobs -/

structure Job where
  /-- the number of the read -/
  id : Nat
  filters : Filters
  settled : Bool
  /-- the timer has neither fired nor been cleared -/
  timer : Bool
  deliver : Option Outcome
  /-- `terminate` was called -/
  stopping : Bool

/-- What an event does to a job: the job as it is then, unless it was released, and what its promise
is resolved with. -/
structure Effect where
  job : Option Job
  resolved : List Outcome

namespace Job

variable (j : Job)

/-- `deliverPending()`; the result is whether something was pending. -/
def deliverPending : Job × List Outcome :=
  ({ j with deliver := none }, j.deliver.toList)

/-- `finish(value)` -/
def finish (value : Outcome) : Job × List Outcome :=
  if j.settled then (j, [])
  else ({ j with settled := true, timer := false, stopping := true }, [value])

/-- `finish(value, { afterRelease: true })` -/
def finishAfterRelease (value : Outcome) : Job :=
  if j.settled then j else { j with settled := true, deliver := some value, stopping := true }

/-- `if (!deliverPending()) finish(value)` -/
def deliverOr (value : Outcome) : Effect :=
  if j.deliver.isSome then ⟨j.deliverPending.1, j.deliverPending.2⟩
  else ⟨(j.finish value).1, (j.finish value).2⟩

/-- `release()` -/
def release : Effect := ⟨none, j.deliverPending.2⟩

def message (m : Message) : Effect := ⟨j.finishAfterRelease (outcomeOf m), []⟩

def error : Effect := ⟨j.finishAfterRelease (result "AUDIT_QUERY_FAILED"), []⟩

def exit : Effect :=
  if j.settled then j.release
  else
    let x := j.finish (result "AUDIT_QUERY_FAILED")
    ⟨none, x.2 ++ x.1.release.resolved⟩

/-- The timer fires. -/
def timeout : Effect :=
  { j with timer := false }.deliverOr (result "AUDIT_QUERY_TIMEOUT" 503 "wall_timeout")

/-- `job.stop()` -/
def stop : Effect := j.deliverOr (result "AUDIT_QUERY_CLOSED")

end Job

/-! ## The reader -/

structure Reader where
  /-- `active`, in the order of the reads -/
  active : List Job
  closed : Bool
  /-- what every read was asked, as `scalarFilters` takes it -/
  asked : List (Option Filters)
  resolved : List (Nat × Outcome)
  /-- the threads that run -/
  threads : List Nat

def Reader.start : Reader := ⟨[], false, [], [], []⟩

inductive ReaderEvent where
  /-- `read(options)`, where the worker is made or `workerFactory` throws -/
  | read (filters : Option Filters) (made : Bool)
  | message (id : Nat) (m : Message)
  | error (id : Nat)
  /-- the thread of the worker ends -/
  | ends (id : Nat)
  | exit (id : Nat)
  /-- the promise of `terminate` is resolved -/
  | terminated (id : Nat)
  | timeout (id : Nat)
  | close

namespace Reader

variable (r : Reader)

/-- A read that is resolved at once. -/
def refuse (filters : Option Filters) (outcome : Outcome) : Reader :=
  { r with asked := r.asked ++ [filters], resolved := r.resolved ++ [(r.asked.length, outcome)] }

def read (filters : Option Filters) (made : Bool) : Reader :=
  if r.closed then r.refuse filters (result "AUDIT_QUERY_CLOSED")
  else
    match filters with
    | none => r.refuse none (result "AUDIT_QUERY_INVALID_FILTER" 400 "scalar_filters_required")
    | some f =>
      if 2 ≤ r.active.length then r.refuse (some f) (result "AUDIT_QUERY_BUSY" 429 "worker_capacity")
      else if made = false then r.refuse (some f) (result "AUDIT_QUERY_FAILED")
      else
        { r with
          active := r.active ++ [⟨r.asked.length, f, false, true, none, false⟩]
          asked := r.asked ++ [some f]
          threads := r.threads ++ [r.asked.length] }

/-- What an event does to the jobs. -/
def apply (effect : Job → Effect) : Reader :=
  { r with
    active := r.active.flatMap fun j => (effect j).job.toList
    resolved := r.resolved ++ r.active.flatMap fun j => (effect j).resolved.map fun o => (j.id, o) }

/-- What an event does to the job of a read, if it is still there and the event can happen to it. -/
def onJob (id : Nat) (can : Job → Bool) (effect : Job → Effect) : Option Reader :=
  match r.active.find? fun j => j.id = id with
  | none => none
  | some j =>
    if can j then some (r.apply fun i => if i.id = id then effect i else ⟨some i, []⟩) else none

/-- `close()` -/
def close : Reader := { r.apply Job.stop with closed := true }

/-- The listeners of a worker are there until its job is released, and `exit` and the promise of
`terminate` come when its thread has ended. -/
def step : ReaderEvent → Option Reader
  | .read filters made => some (r.read filters made)
  | .message id m => r.onJob id (fun _ => true) fun j => j.message m
  | .error id => r.onJob id (fun _ => true) Job.error
  | .ends id => if id ∈ r.threads then some { r with threads := r.threads.erase id } else none
  | .exit id => r.onJob id (fun _ => id ∉ r.threads) Job.exit
  | .terminated id => r.onJob id (fun j => j.stopping && id ∉ r.threads) Job.release
  | .timeout id => r.onJob id Job.timer Job.timeout
  | .close => some r.close

end Reader

def reader : Automaton Reader ReaderEvent where
  start := .start
  step := Reader.step

end Telepty.Audit
