import Mathlib.Algebra.Ring.Nat
import Telepty.Infra.Runs
import Mathlib.Logic.Function.Basic

/-!
# The writer of the audit log

Records are appended to a queue, and the queue is written in batches: when the timer fires, when
somebody flushes, and until nothing is left when the writer is closed. `flush` and `close` are
asynchronous, and a batch waits for one file operation after another, so all of them interleave.

A record is whatever `append` queues. Whether `buildAuditLine` makes a line of it is a parameter.
-/

namespace Telepty.Audit

open Infra

/-! ## Records and batches -/

/-- A record in the order of the appends. -/
structure Entry (R : Type) where
  number : Nat
  record : R

structure Options (R : Type) where
  queueMax : Int
  maxBytes : Int
  maxFiles : Nat
  /-- `maxAgeDays > 0` -/
  prunes : Bool
  /-- a storage is given, whose `writeBatch` is asynchronous -/
  storage : Bool
  /-- `buildAuditLine` does not throw -/
  builds : R → Bool

/-- The file operation that a batch waits for. -/
inductive Stage where
  | storage
  | stat
  /-- `rename(path.i, path.(i + 1))` -/
  | shift (i : Nat)
  /-- `rename(path, path.1)` -/
  | shiftActive
  /-- `stat(path.i)` -/
  | age (i : Nat)
  /-- `unlink(path.i)` -/
  | prune (i : Nat)
  | append
  | chmod
  deriving DecidableEq

structure Batch (R : Type) where
  number : Nat
  entries : List (Entry R)
  stage : Stage

/-- What a file operation comes back with; a `stat` also with the size, and whether the file is
older than the cutoff. -/
structure Answer where
  ok : Bool
  size : Nat
  old : Bool

/-- Where a call of `flush` stands: it waits for a batch that was being written before, or for its
own, or it is through. -/
inductive Wait where
  | before (batch : Nat)
  | own (batch : Nat)
  | settled
  deriving DecidableEq

structure Flush where
  wait : Wait
  /-- how many records had been appended before the call -/
  seen : Nat
  deriving DecidableEq

/-- Where a call of `close` stands. -/
inductive Close where
  | awaits (flush : Nat)
  | settled
  deriving DecidableEq

/-! ## The writer -/

/-- The variables of the writer, the calls under way, and what has become of the records. -/
structure Writer (R : Type) where
  queue : List (Entry R)
  timer : Bool
  /-- the batch whose promise `writing` holds -/
  writing : Option Nat
  closed : Bool
  droppedTotal : Nat
  /-- `stat.appended` -/
  appendedTotal : Nat
  batches : List (Batch R)
  batchCount : Nat
  flushes : Nat → Option Flush
  flushCount : Nat
  closes : Nat → Option Close
  closeCount : Nat
  /-- the active file and the rotated ones -/
  files : Nat → Option (List (Entry R))
  appended : List (Entry R)
  written : List (Entry R)
  dropped : List (Entry R)
  /-- the batches of the `audit_error` events -/
  reported : List (List (Entry R))

variable {R : Type}

namespace Writer

def created : Writer R where
  queue := []
  timer := false
  writing := none
  closed := false
  droppedTotal := 0
  appendedTotal := 0
  batches := []
  batchCount := 0
  flushes := fun _ => none
  flushCount := 0
  closes := fun _ => none
  closeCount := 0
  files := fun _ => none
  appended := []
  written := []
  dropped := []
  reported := []

def scheduleFlush (w : Writer R) : Writer R :=
  if w.closed ∨ w.timer ∨ w.writing.isSome ∨ w.queue.isEmpty then w else { w with timer := true }

/-- The oldest record of the queue goes. -/
def dropOldest (w : Writer R) : Writer R :=
  { w with
    queue := w.queue.tail
    dropped := w.dropped ++ w.queue.head?.toList
    droppedTotal := w.droppedTotal + 1 }

def push (w : Writer R) (record : R) : Writer R :=
  { w with
    queue := w.queue ++ [⟨w.appendedTotal, record⟩]
    appended := w.appended ++ [⟨w.appendedTotal, record⟩]
    appendedTotal := w.appendedTotal + 1 }

def append (o : Options R) (w : Writer R) (record : R) : Writer R :=
  if w.closed then w
  else if o.queueMax ≤ w.queue.length then (w.dropOldest.push record).scheduleFlush
  else (w.push record).scheduleFlush

/-! ### Batches -/

/-- `audit_error` -/
def report (w : Writer R) (entries : List (Entry R)) : Writer R :=
  { w with reported := w.reported ++ [entries] }

/-- The end of `writeBatch`, its `finally`. -/
def finish (w : Writer R) (number : Nat) : Writer R :=
  { w with
    batches := w.batches.filter (·.number ≠ number)
    writing := none }.scheduleFlush

/-- `writeBatch()` up to its first `await`. A line that cannot be built ends it before. -/
def writeBatch (o : Options R) (w : Writer R) : Writer R :=
  let w' := { w with queue := [], batchCount := w.batchCount + 1 }
  if w.queue.all fun e => o.builds e.record then
    { w' with
      batches := w.batches ++ [⟨w.batchCount, w.queue, if o.storage then .storage else .stat⟩] }
  else (w'.report w.queue).finish w.batchCount

/-- The batch goes on to its next file operation. -/
def goto (w : Writer R) (b : Batch R) (stage : Stage) : Writer R :=
  { w with batches := w.batches.map fun c => if c.number = b.number then { c with stage } else c }

/-- The loop of `rotateIfNeeded`. -/
def shiftFrom (i : Nat) : Stage :=
  if 1 ≤ i then .shift i else .shiftActive

/-- The loop of `pruneByAge`. -/
def pruneFrom (o : Options R) (i : Nat) : Stage :=
  if o.prunes ∧ i ≤ o.maxFiles then .age i else .append

/-- A file that is not there cannot be renamed. -/
def rename (w : Writer R) (i j : Nat) (ok : Bool) : Writer R :=
  if ok ∧ (w.files i).isSome then
    { w with files := Function.update (Function.update w.files j (w.files i)) i none }
  else w

def unlink (w : Writer R) (i : Nat) (ok : Bool) : Writer R :=
  if ok then { w with files := Function.update w.files i none } else w

/-- The records are in the log. -/
def land (w : Writer R) (entries : List (Entry R)) : Writer R :=
  { w with written := w.written ++ entries }

def appendFile (w : Writer R) (entries : List (Entry R)) : Writer R :=
  { w with files := Function.update w.files 0 (some ((w.files 0).getD [] ++ entries)) }.land entries

/-- The rest of `writeBatch`, from one `await` to the next. -/
def advance (o : Options R) (w : Writer R) (b : Batch R) (a : Answer) : Writer R :=
  match b.stage with
  | .storage =>
    if a.ok then (w.land b.entries).finish b.number
    else (w.report b.entries).finish b.number
  | .stat =>
    if o.maxBytes ≤ (if a.ok then a.size else 0 : Nat) then w.goto b (shiftFrom (o.maxFiles - 1))
    else w.goto b (pruneFrom o 1)
  | .shift i => (w.rename i (i + 1) a.ok).goto b (shiftFrom (i - 1))
  | .shiftActive => (w.rename 0 1 a.ok).goto b (pruneFrom o 1)
  | .age i => w.goto b (if a.ok && a.old then .prune i else pruneFrom o (i + 1))
  | .prune i => (w.unlink i a.ok).goto b (pruneFrom o (i + 1))
  | .append =>
    if a.ok then (w.appendFile b.entries).goto b .chmod
    else (w.report b.entries).finish b.number
  | .chmod => w.finish b.number

/-- A file operation of a batch comes back. -/
def answer (o : Options R) (w : Writer R) (number : Nat) (a : Answer) : Option (Writer R) :=
  (w.batches.find? (·.number = number)).map fun b => w.advance o b a

/-! ### Calls -/

def setFlush (w : Writer R) (f : Nat) (wait : Wait) (seen : Nat) : Writer R :=
  { w with flushes := Function.update w.flushes f (some ⟨wait, seen⟩) }

/-- The rest of `flush`, after its first `await`. -/
def flushQueue (o : Options R) (w : Writer R) (f seen : Nat) : Writer R :=
  if w.queue.isEmpty then w.setFlush f .settled seen
  else { w.writeBatch o with writing := some w.batchCount }.setFlush f (.own w.batchCount) seen

def flush (o : Options R) (w : Writer R) : Writer R :=
  let w' := { w with flushCount := w.flushCount + 1 }
  match w.writing with
  | some batch => w'.setFlush w.flushCount (.before batch) w.appendedTotal
  | none => w'.flushQueue o w.flushCount w.appendedTotal

/-- The batch is being written. -/
def Running (w : Writer R) (number : Nat) : Prop :=
  ∃ b ∈ w.batches, b.number = number

instance (w : Writer R) (number : Nat) : Decidable (w.Running number) :=
  inferInstanceAs (Decidable (∃ b ∈ w.batches, b.number = number))

/-- A call of `flush` whose batch is through goes on. -/
def resume (o : Options R) (w : Writer R) (f : Nat) : Option (Writer R) :=
  match w.flushes f with
  | some ⟨.before batch, seen⟩ => if w.Running batch then none else some (w.flushQueue o f seen)
  | some ⟨.own batch, seen⟩ => if w.Running batch then none else some (w.setFlush f .settled seen)
  | _ => none

def fire (o : Options R) (w : Writer R) : Option (Writer R) :=
  if w.timer then some ({ w with timer := false }.flush o) else none

def setClose (w : Writer R) (c : Nat) (close : Close) : Writer R :=
  { w with closes := Function.update w.closes c (some close) }

def close (o : Options R) (w : Writer R) : Writer R :=
  ({ w with closed := true, timer := false, closeCount := w.closeCount + 1 }.flush o).setClose
    w.closeCount (.awaits w.flushCount)

/-- The loop of `close`, once its flush is through. -/
def resumeClose (o : Options R) (w : Writer R) (c : Nat) : Option (Writer R) :=
  match w.closes c with
  | some (.awaits f) =>
    if (w.flushes f).any (·.wait = .settled) then
      if w.writing.isSome ∨ !w.queue.isEmpty then
        some ((w.flush o).setClose c (.awaits w.flushCount))
      else some (w.setClose c .settled)
    else none
  | _ => none

end Writer

inductive Event (R : Type) where
  | append (record : R)
  | flush
  | close
  | fire
  | answer (batch : Nat) (a : Answer)
  | resume (flush : Nat)
  | resumeClose (close : Nat)

/-- What happens without a call of `append`, `flush` or `close`. -/
def Event.isOwn : Event R → Bool
  | .append _ | .flush | .close => false
  | _ => true

def writer (o : Options R) : Automaton (Writer R) (Event R) where
  start := .created
  step w
    | .append record => some (w.append o record)
    | .flush => some (w.flush o)
    | .close => some (w.close o)
    | .fire => w.fire o
    | .answer batch a => w.answer o batch a
    | .resume f => w.resume o f
    | .resumeClose c => w.resumeClose o c

end Telepty.Audit
