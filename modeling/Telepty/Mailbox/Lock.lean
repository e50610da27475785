import Telepty.Infra.OrdMap
import Telepty.Infra.Text

/-!
# The mailbox lock

Processes that run `acquireLockObserved`, the release it returns, and `reapSessionLocks` on one
session directory. An acquisition is a participant under the unique name of its ticket directory, a
run of the reaper is one without a ticket. Every directory listing, `lstat`, `mkdir`, `open`,
`rename`, `unlink`, `rmdir` and liveness probe is one step of one participant; a process may die
between any two, and its pid may be given to another process later. The directory `.lock` is there and
holds ticket directories only; a legacy lock file in its place makes every call throw.

A step has an outcome: the file operation succeeds, or is refused with `EPERM` (a directory or a file
that is being deleted on Windows), or something else throws (a failed operation, the deadline). A
listing answers the names in any order.
-/

namespace Telepty.Mailbox.Lock

open Infra

/-! ## Tickets -/

/-- The name of a ticket directory, `${process.pid}-${crypto.randomBytes(16).toString('hex')}`. -/
structure TicketName where
  pid : Nat
  token : Text
  deriving DecidableEq

def TicketName.text (n : TicketName) : Text := natText n.pid ++ '-' :: n.token

/-- `a < b` of two names -/
def TicketName.before (a b : TicketName) : Prop := a.text < b.text

instance (a b : TicketName) : Decidable (a.before b) := inferInstanceAs (Decidable (_ < _))

/-- The files of a ticket directory. -/
inductive Leaf where
  | draft
  | number
  | departed
  deriving DecidableEq

structure Ticket where
  draft : Option Text
  number : Option Text
  departed : Bool

namespace Ticket

def empty : Ticket := ⟨none, none, false⟩

def names (t : Ticket) : List Leaf :=
  (if t.draft.isSome then [.draft] else []) ++ (if t.number.isSome then [.number] else []) ++
    if t.departed then [.departed] else []

def unlink (t : Ticket) : Leaf → Ticket
  | .draft => { t with draft := none }
  | .number => { t with number := none }
  | .departed => { t with departed := false }

end Ticket

abbrev Tickets := OrdMap TicketName Ticket

/-- A ticket directory as an operation in it leaves it, `none` when it is removed. -/
def Tickets.put (tickets : Tickets) (name : TicketName) : Option Ticket → Tickets
  | some t => tickets.set name t
  | none => tickets.delete name

def maxContenders : Nat := 1024

def maxSafeInteger : Nat := 9007199254740991

/-- The number in a file, `/^[1-9][0-9]*$/` and a safe integer. -/
def numberOf (text : Text) : Option Nat :=
  (parseNat text).filter fun n => natText n = text ∧ 0 < n ∧ n ≤ maxSafeInteger

/-! ## Participants -/

inductive Outcome where
  | ok
  | eperm
  | thrown
  /-- a listing of the lock directory -/
  | listing (names : List TicketName)

/-- Where a `removeTicket` stands; `marked` when it found the departure marker. -/
inductive Removal where
  | list
  | mark (names : List Leaf)
  | unlink (marked : Bool) (l : Leaf) (rest : List Leaf)
  | relist (marked : Bool)
  | unmark (marked : Bool)
  | rmdir

/-- Where a `readTicket` stands; `published` when the listing showed the number. -/
inductive Read where
  | stat
  | names
  /-- the listing is at hand: the files are checked, the owner is probed -/
  | found (names : List Leaf)
  | number (published : Bool)
  /-- there was no number: choosing, unless the ticket has departed -/
  | absent
  | opening (published : Bool)
  | content (text : Text) (published : Bool)
  /-- the number was refused with `EPERM` -/
  | refused (published : Bool)
  | reap (r : Removal)

/-- What `readTicket` answers; `gone` is `null` or `{ removed: true }`. -/
inductive Seen where
  | gone
  | unresolved
  | choosing
  | number (n : Nat)

inductive Pc where
  | mkdir
  /-- the doorway: the lock directory is listed -/
  | doorway
  | scan (highest : Nat) (peer : TicketName) (r : Read) (todo : List TicketName)
  | create (n : Nat)
  | write (n : Nat)
  | rename (n : Nat)
  /-- the admission: the lock directory is listed -/
  | poll (n : Nat)
  | check (n : Nat) (peer : TicketName) (r : Read) (todo : List TicketName)
  | held (n : Nat)
  /-- the own ticket is removed -/
  | remove (r : Removal)
  /-- `reapSessionLocks`: the lock directory is listed -/
  | survey
  | sweep (peer : TicketName) (r : Read) (todo : List TicketName)
  | done

structure Participant where
  live : Bool
  pc : Pc

structure World where
  tickets : Tickets
  /-- the pids that `isProcessAlive` finds -/
  running : List Nat
  procs : OrdMap TicketName Participant

def World.initial : World := ⟨.empty, [], .empty⟩

/-! ## Removing a ticket -/

inductive RemovalStep where
  | more (r : Removal)
  | returned
  | thrown

/-- The files but the marker are unlinked, then the directory is listed again. -/
def unlinkAll (marked : Bool) : List Leaf → Removal
  | [] => .relist marked
  | l :: rest => .unlink marked l rest

/-- One step of `removeTicket(dir, reap)`, with the ticket directory as it finds and leaves it. -/
def removalStep (reap : Bool) (t : Option Ticket) (r : Removal) (o : Outcome) :
    Option Ticket × RemovalStep :=
  match o with
  | .thrown => (t, .thrown)
  | .eperm =>
    match r with
    | .list | .relist _ => (t, if reap then .returned else .thrown)
    | .unlink true _ rest => (t, .more (unlinkAll true rest))
    | .unmark true => (t, .returned)
    | _ => (t, .thrown)
  | _ =>
    match t with
    | none =>
      match r with
      | .unlink marked _ rest => (none, .more (unlinkAll marked rest))
      | _ => (none, .returned)
    | some k =>
      match r with
      | .list =>
        if Leaf.departed ∈ k.names then
          (some k, .more (unlinkAll true (k.names.filter (· ≠ .departed))))
        else (some k, .more (.mark k.names))
      | .mark names => (some { k with departed := true }, .more (unlinkAll k.departed names))
      | .unlink marked l rest => (some (k.unlink l), .more (unlinkAll marked rest))
      | .relist marked =>
        if k.names = [.departed] then (some k, .more (.unmark marked)) else (some k, .returned)
      | .unmark _ =>
        if k.departed then (some { k with departed := false }, .more .rmdir)
        else (some k, .returned)
      | .rmdir => if k.names = [] then (none, .returned) else (some k, .thrown)

/-! ## Reading a ticket -/

inductive ReadStep where
  | more (r : Read)
  | seen (s : Seen)
  | thrown

/-- One step of `readTicket(parent, name, true)` of a process `pid`, reaping apart. -/
def readStep (w : World) (pid : Nat) (peer : TicketName) (r : Read) (o : Outcome) : ReadStep :=
  let t := w.tickets.get? peer
  match o, r with
  | .thrown, _ => .thrown
  | .eperm, .stat | .eperm, .names | .eperm, .absent | .eperm, .refused _ => .seen .unresolved
  | .eperm, .found names =>
    -- one rule for every entry: skipped in a marked ticket, else the listing is read again
    if Leaf.departed ∈ names then .more (.found names)
    else
      match t with
      | none => .seen .gone
      | some k => if Leaf.departed ∈ k.names then .more (.found k.names) else .thrown
  | .eperm, .number published | .eperm, .opening published | .eperm, .content _ published =>
    .more (.refused published)
  | _, .stat => if t.isSome then .more .names else .seen .gone
  | _, .names =>
    match t with
    | none => .seen .gone
    | some k => .more (.found k.names)
  | _, .found names =>
    if Leaf.departed ∈ names then
      if pid = peer.pid ∨ peer.pid ∉ w.running then .more (.reap .list) else .seen .gone
    else if peer.pid ∉ w.running then .more (.reap .list)
    else .more (.number (Leaf.number ∈ names))
  | _, .number published =>
    if (t.bind Ticket.number).isSome then .more (.opening published) else .more .absent
  | _, .absent =>
    match t with
    | none => .seen .gone
    | some k => if k.departed then .seen .gone else .seen .choosing
  | _, .opening published =>
    match t.bind Ticket.number with
    | none => .seen .gone
    | some text => .more (.content text published)
  | _, .content text _ =>
    if (t.bind Ticket.number).isNone then .seen .gone
    else
      match numberOf text with
      | some n => .seen (.number n)
      | none => .thrown
  | _, .refused published =>
    match t with
    | none => .seen .gone
    | some k =>
      if k.departed then .seen .gone
      else if published ∧ k.number = none then .seen .gone
      else .thrown
  | _, .reap _ => .thrown

/-- One step of `readTicket`, with the tickets that it leaves. -/
def World.read (w : World) (pid : Nat) (peer : TicketName) (r : Read) (o : Outcome) :
    Tickets × ReadStep :=
  match r with
  | .reap removal =>
    let done := removalStep true (w.tickets.get? peer) removal o
    let tickets := Tickets.put w.tickets peer done.1
    match done.2 with
    | .more r => (tickets, .more (.reap r))
    | .returned => (tickets, .seen .gone)
    | .thrown => (tickets, .thrown)
  | r => (w.tickets, readStep w pid peer r o)

/-! ## Taking the lock -/

/-- The next peer of the doorway, or the number is chosen. -/
def nextScan (highest : Nat) : List TicketName → Pc
  | [] => if maxSafeInteger ≤ highest then .remove .list else .create (highest + 1)
  | peer :: todo => .scan highest peer .stat todo

/-- The next peer of the admission, or the lock is held. -/
def nextCheck (n : Nat) : List TicketName → Pc
  | [] => .held n
  | peer :: todo => .check n peer .stat todo

def nextSweep : List TicketName → Pc
  | [] => .done
  | peer :: todo => .sweep peer .stat todo

/-- After a peer was read in the doorway. -/
def afterScan (highest : Nat) (todo : List TicketName) : Seen → Pc
  | .unresolved => .doorway
  | .number m => nextScan (max highest m) todo
  | .gone | .choosing => nextScan highest todo

/-- After a peer was read in the admission: a peer that is choosing, or that is before, blocks. -/
def afterCheck (name : TicketName) (n : Nat) (peer : TicketName) (todo : List TicketName) :
    Seen → Pc
  | .unresolved | .choosing => .poll n
  | .number m => if m < n ∨ m = n ∧ peer.before name then .poll n else nextCheck n todo
  | .gone => nextCheck n todo

namespace World

/-- The listing that an outcome supplies is one of the lock directory. -/
def lists (w : World) (names : List TicketName) : Prop := names.Perm w.tickets.keys

instance (w : World) (names : List TicketName) : Decidable (w.lists names) :=
  inferInstanceAs (Decidable (List.Perm _ _))

/-- `entries(lock.dir)`: what follows the listing. -/
def entries (w : World) (o : Outcome) (failed again : Pc) (next : List TicketName → Pc) : Pc :=
  match o with
  | .listing names =>
    if w.lists names then if maxContenders < names.length then failed else next names else again
  | .ok => again
  | _ => failed

/-- One step of participant `name` at `pc`. -/
def turn (w : World) (name : TicketName) (pc : Pc) (o : Outcome) : Tickets × Pc :=
  let failed : Pc := .remove .list
  let own : Ticket := (w.tickets.get? name).getD .empty
  match pc, o with
  | .mkdir, .ok => (w.tickets.set name .empty, .doorway)
  | .mkdir, _ => (w.tickets, .done)
  | .doorway, o => (w.tickets, w.entries o failed .doorway (nextScan 0))
  | .scan highest peer r todo, o =>
    let read := w.read name.pid peer r o
    match read.2 with
    | .more r => (read.1, .scan highest peer r todo)
    | .seen s => (read.1, afterScan highest todo s)
    | .thrown => (read.1, failed)
  | .create n, .ok => (w.tickets.set name { own with draft := some [] }, .write n)
  | .write n, .ok => (w.tickets.set name { own with draft := some (natText n) }, .rename n)
  | .rename n, .ok => (w.tickets.set name { own with draft := none, number := own.draft }, .poll n)
  | .poll n, o =>
    (w.tickets, w.entries o failed (.poll n) fun names => nextCheck n (names.filter (· ≠ name)))
  | .check n peer r todo, o =>
    let read := w.read name.pid peer r o
    match read.2 with
    | .more r => (read.1, .check n peer r todo)
    | .seen s => (read.1, afterCheck name n peer todo s)
    | .thrown => (read.1, failed)
  | .remove r, o =>
    let done := removalStep false (w.tickets.get? name) r o
    let tickets := Tickets.put w.tickets name done.1
    match done.2 with
    | .more r => (tickets, .remove r)
    | _ => (tickets, .done)
  | .survey, o => (w.tickets, w.entries o .done .survey nextSweep)
  | .sweep peer r todo, o =>
    let read := w.read name.pid peer r o
    match read.2 with
    | .more r => (read.1, .sweep peer r todo)
    | .seen _ => (read.1, nextSweep todo)
    | .thrown => (read.1, .done)
  | .held n, _ => (w.tickets, .held n)
  | .done, _ => (w.tickets, .done)
  | .create _, _ | .write _, _ | .rename _, _ => (w.tickets, failed)

end World

/-! ## Events -/

inductive Event where
  | spawn (pid : Nat)
  /-- the process is killed or exits, with every participant it is in -/
  | crash (pid : Nat)
  /-- a call of `acquireLock`, under the name it will give its ticket -/
  | acquire (name : TicketName)
  /-- a call of `reapSessionLocks` -/
  | reap (name : TicketName)
  | turn (name : TicketName) (o : Outcome)
  /-- the holder calls the release it was given -/
  | release (name : TicketName)

/-- A new participant of a running process, under a name that was never used. -/
def World.enter (w : World) (name : TicketName) (pc : Pc) : World :=
  if name.pid ∈ w.running ∧ w.procs.get? name = none then
    { w with procs := w.procs.set name ⟨true, pc⟩ }
  else w

def Participant.kill (s : Participant) : Participant := { s with live := false }

/-- One event; one that cannot happen changes nothing. -/
def step (w : World) : Event → World
  | .spawn pid => { w with running := pid :: w.running }
  | .crash pid =>
    { w with
      running := w.running.filter (· ≠ pid)
      procs := ⟨w.procs.entries.map fun e => (e.1, if e.1.pid = pid then e.2.kill else e.2), by
        rw [List.map_map]
        exact w.procs.nodup⟩ }
  | .acquire name => w.enter name .mkdir
  | .reap name => w.enter name .survey
  | .turn name o =>
    match w.procs.get? name with
    | some s =>
      if s.live then
        { w with
          tickets := (w.turn name s.pc o).1
          procs := w.procs.set name ⟨true, (w.turn name s.pc o).2⟩ }
      else w
    | none => w
  | .release name =>
    match w.procs.get? name with
    | some ⟨true, .held _⟩ => { w with procs := w.procs.set name ⟨true, .remove .list⟩ }
    | _ => w

def run (w : World) (events : List Event) : World := events.foldl step w

/-- The lock was taken, and not released since, by a live process. -/
def World.holds (w : World) (name : TicketName) : Prop :=
  ∃ n, w.procs.get? name = some ⟨true, .held n⟩

end Telepty.Mailbox.Lock
