import Telepty.Infra.OrdMap
import Telepty.Infra.JsonRoundtrip

/-!
# The ledger lock

Processes that run `acquire` (or `acquireDurable`, which issues the same operations in the same
order), `release` and the confirmed `operatorUnlock` on one lock path. Every file operation, every
liveness check and the health probe is one step of one process; a process may die between any two.

A file is created under an inode number and written through its descriptor, so a file that was
unlinked in the meantime is written without being at the path.
-/

namespace Telepty.Lock

open Infra

/-! ## The contents of a lock -/

/-- `JSON.stringify({ pid, token, started_at }) + '\n'` -/
def lockBody (pid : Nat) (token startedAt : Text) : Bytes :=
  encodeText ((Json.obj [("pid", .num pid), ("token", .str token),
    ("started_at", .str startedAt)]).stringify ++ ['\n'])

/-- The contents of a readable lock: an object, not an array and not `null`. -/
def lockFromText (bytes : Bytes) : Option Json := (Json.parse (decodeText bytes)).filter Json.isObject

/-- `Number(contents.pid)` -/
def lockPid (contents : Json) : Int := (contents.field "pid").elim 0 Json.toNumber

/-- True iff the lock is readable and names exactly this pid and token. -/
def verify (contents : Option Json) (pid : Nat) (token : Text) : Bool :=
  match contents with
  | some c => lockPid c = pid && (c.field "token").bind Json.asText = some token
  | none => false

theorem lockFromText_lockBody (pid : Nat) (token startedAt : Text) :
    lockFromText (lockBody pid token startedAt) =
      some (.obj [("pid", .num pid), ("token", .str token), ("started_at", .str startedAt)]) := by
  rw [lockFromText, lockBody, decodeText_encodeText, Json.parse_stringify_newline]
  rfl

theorem lockFromText_nil : lockFromText [] = none := by decide

/-- A lock names the process that wrote it and no other. -/
theorem verify_lockBody {pid pid' : Nat} {token token' startedAt : Text} :
    verify (lockFromText (lockBody pid token startedAt)) pid' token' = true ↔
      pid = pid' ∧ token = token' := by
  simp [lockFromText_lockBody, verify, lockPid, Json.field, Json.lookup, Json.toNumber, Json.asText,
    Int.natCast_inj]

theorem lockPid_lockBody {pid : Nat} {token startedAt : Text} {c : Json}
    (h : lockFromText (lockBody pid token startedAt) = some c) : lockPid c = pid := by
  rw [lockFromText_lockBody] at h
  cases h
  rfl

/-! ## Processes -/

/-- A process with the token it made at its start. -/
structure Proc where
  pid : Nat
  token : Text
  deriving DecidableEq

/-- What an `operatorUnlock` found when it read the lock: the file, and its contents when readable. -/
structure Seen where
  inode : Nat
  contents : Option Json

/-- Where a process stands: between two calls, or before a step of the one it is in. -/
inductive Pc where
  | idle
  | mkdir (startedAt : Text)
  | create (startedAt : Text)
  /-- the lock is present: it is read for the answer -/
  | present
  | write (inode : Nat) (startedAt : Text)
  | fsync (inode : Nat)
  | close (inode : Nat)
  | verify
  | unlink
  | readLock (statePid : Option Nat)
  | checkState (statePid : Option Nat) (seen : Seen)
  | probe (seen : Seen)
  | checkPid (seen : Seen)
  | remove (seen : Seen)

inductive Answer where
  | held
  | lockPresent (contents : Option Json)
  | lockError (step : Text)
  | released
  | lockMismatch
  | unlinkFailed
  | noLock
  | daemonStatePidAlive
  | healthAnswers
  | lockPidAlive
  | unlocked

structure ProcState where
  live : Bool
  /-- answered `held` and has not released since -/
  holds : Bool
  pc : Pc
  answer : Option Answer

/-- A file under its inode, and the process whose exclusive create made it. -/
structure LockFile where
  creator : Proc
  bytes : Bytes

structure World where
  /-- the inode at the lock path -/
  path : Option Nat
  files : OrdMap Nat LockFile
  nextInode : Nat
  procs : OrdMap Proc ProcState
  /-- the pid in the daemon state file -/
  daemonState : Option Nat

namespace World

/-- No process, no daemon state, and no lock. -/
def initial : World := ⟨none, .empty, 0, .empty, none⟩

/-- The answer of the operating system to `isProcessRunning(pid)`. -/
def isProcessRunning (w : World) (pid : Int) : Bool :=
  w.procs.entries.any fun e => e.2.live && (e.1.pid : Int) = pid

/-- The lock that is at the path. -/
def lockAt (w : World) : Option (Nat × LockFile) :=
  w.path.bind fun i => (w.files.get? i).map fun f => (i, f)

def at_ (w : World) (p : Proc) (s : ProcState) (pc : Pc) : World :=
  { w with procs := w.procs.set p { s with pc := pc } }

def answer (w : World) (p : Proc) (s : ProcState) (a : Answer) : World :=
  { w with procs := w.procs.set p { s with pc := .idle, answer := some a } }

end World

/-! ## Steps -/

inductive Call where
  | acquire (startedAt : Text)
  | release
  | operatorUnlock

inductive Event where
  | start (p : Proc)
  /-- the process writes its pid to the daemon state file -/
  | claimDaemonState (p : Proc)
  /-- the process crashes or exits -/
  | die (p : Proc)
  | call (p : Proc) (c : Call)
  /-- the next step of the call the process is in; not `ok` when the operation fails, and at the
  probe when the daemon answers -/
  | step (p : Proc) (ok : Bool)

/-- The step that a process makes at its program counter. -/
def stepAt (w : World) (p : Proc) (s : ProcState) (ok : Bool) : World :=
  match s.pc with
  | .idle => w
  | .mkdir startedAt =>
    if ok then w.at_ p s (.create startedAt) else w.answer p s (.lockError "lock_dir")
  | .create startedAt =>
    if ok then
      match w.path with
      | some _ => w.at_ p s .present
      | none =>
        let i := w.nextInode
        { w with path := some i, files := w.files.set i ⟨p, []⟩, nextInode := i + 1 }.at_ p s
          (.write i startedAt)
    else w.answer p s (.lockError "create")
  | .present => w.answer p s (.lockPresent (w.lockAt.bind fun l => lockFromText l.2.bytes))
  | .write i startedAt =>
    if ok then
      { w with files := w.files.set i ⟨p, lockBody p.pid p.token startedAt⟩ }.at_ p s (.fsync i)
    else w.answer p s (.lockError "write")
  | .fsync i => if ok then w.at_ p s (.close i) else w.answer p s (.lockError "write")
  | .close _ =>
    if ok then w.answer p { s with holds := true } .held else w.answer p s (.lockError "write")
  | .verify =>
    if Lock.verify (w.lockAt.bind fun l => lockFromText l.2.bytes) p.pid p.token then w.at_ p s .unlink
    else w.answer p s .lockMismatch
  | .unlink =>
    if ok ∧ w.path ≠ none then { w with path := none }.answer p { s with holds := false } .released
    else w.answer p s .unlinkFailed
  | .readLock statePid =>
    match w.lockAt with
    | none => w.answer p s .noLock
    | some (i, f) => w.at_ p s (.checkState statePid ⟨i, lockFromText f.bytes⟩)
  | .checkState statePid seen =>
    if statePid.any fun pid => pid ≠ 0 && w.isProcessRunning pid then
      w.answer p s .daemonStatePidAlive
    else w.at_ p s (.probe seen)
  | .probe seen => if ok then w.at_ p s (.checkPid seen) else w.answer p s .healthAnswers
  | .checkPid seen =>
    if seen.contents.any fun c => lockPid c ≠ 0 && w.isProcessRunning (lockPid c) then
      w.answer p s .lockPidAlive
    else w.at_ p s (.remove seen)
  | .remove _ =>
    if ok ∧ w.path ≠ none then { w with path := none }.answer p s .unlocked
    else w.answer p s .unlinkFailed

def callPc (w : World) : Call → Pc
  | .acquire startedAt => .mkdir startedAt
  | .release => .verify
  | .operatorUnlock => .readLock w.daemonState

/-- One step of the world; an event that cannot happen changes nothing. A process is started once,
with a positive pid. -/
def step (w : World) : Event → World
  | .start p =>
    if p.pid ≠ 0 ∧ w.procs.has p = false then
      { w with procs := w.procs.set p ⟨true, false, .idle, none⟩ }
    else w
  | .claimDaemonState p =>
    match w.procs.get? p with
    | some s => if s.live then { w with daemonState := some p.pid } else w
    | none => w
  | .die p =>
    match w.procs.get? p with
    | some s => { w with procs := w.procs.set p { s with live := false, pc := .idle } }
    | none => w
  | .call p c =>
    match w.procs.get? p with
    | some s =>
      match s.live, s.pc with
      | true, .idle => w.at_ p s (callPc w c)
      | _, _ => w
    | none => w
  | .step p ok =>
    match w.procs.get? p with
    | some s => if s.live then stepAt w p s ok else w
    | none => w

def run (w : World) (events : List Event) : World := events.foldl step w

def World.alive (w : World) (p : Proc) : Bool := (w.procs.get? p).any fun s => s.live

/-- Answered `held`, alive, and not released. -/
def World.holds (w : World) (p : Proc) : Bool := (w.procs.get? p).any fun s => s.live && s.holds

end Telepty.Lock
