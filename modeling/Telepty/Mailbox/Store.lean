import Telepty.Mailbox.Custody

/-!
# The mailbox operations

`FileMailbox` of one session. Every operation runs under the session's lock, so it is one step: it
reads the files, answers, and makes a list of writes. The files are the only state, a restart loses
nothing else; a process that dies during an operation has made some of its writes and perhaps the
first bytes of the next one.

`now` is the operation's reading of the clock, in seconds.
-/

namespace Telepty.Mailbox

open Infra

/-- The configuration the operations read. -/
structure Config where
  maxRetries : Nat
  retryBackoffSecs : Int
  ttlSecs : Int
  inflightTimeoutSecs : Int
  compactionThreshold : Nat

/-- `DEFAULTS` -/
def Config.default : Config := ⟨3, 1, 86400, 30, 100⟩

/-! ## Messages -/

/-- `!latest || m.attempt > latest.attempt ? m : latest` -/
def later (latest : Option Message) (m : Message) : Message :=
  match latest with
  | none => m
  | some l => if l.attempt < m.attempt then m else l

/-- The row of the highest attempt of a message, the first of them. -/
def latestOf (id : Text) (messages : List Message) : Option Message :=
  (messages.filter fun m => m.msgId = id).foldl (fun l m => some (later l m)) none

/-- The messages by id, each with its latest row, by first appearance. -/
def latest (messages : List Message) : OrdMap Text Message :=
  messages.foldl (fun map m => map.set m.msgId (later (map.get? m.msgId) m)) OrdMap.empty

/-- `countPending(sessionDir)` -/
def countPending (journal : List StateRow) : Nat :=
  ((loadStates journal).values.filter fun r => r.state = .pending).length

/-- `1 << n` of 32-bit integers. -/
def shiftLeftOne (n : Nat) : Int := if n % 32 = 31 then -2147483648 else 2 ^ (n % 32)

/-- The delay before attempt `attempt`, counted from 1. -/
def Config.backoff (cfg : Config) (attempt : Nat) : Int :=
  cfg.retryBackoffSecs * shiftLeftOne (attempt - 1)

/-! ## Compaction -/

def unknownIds (journal : List StateRow) : List Text :=
  (journal.filter StateRow.unknown).map (·.msgId)

/-- How many messages the compaction can drop. -/
def terminalCount (journal : List StateRow) : Nat :=
  ((loadStates journal).values.filter fun r =>
    r.state.terminal && r.msgId ∉ unknownIds journal).length

/-- Whether the compaction keeps the message. -/
def kept (journal : List StateRow) (id : Text) : Bool :=
  id ∈ unknownIds journal || !(((loadStates journal).get? id).any fun r => r.state.terminal)

/-- The row the compaction keeps of a message: `never_attempted` only where that is still sure. -/
def StateRow.safe (r : StateRow) (pristine : Bool) : StateRow :=
  if r.mark = .neverAttempted ∧ !pristine then { r with mark := .plain } else r

/-- The rows the compaction leaves in `state.jsonl`: the whole history of the unknown messages, and
the last row of each other message that is not terminal. -/
def activeStates (journal : List StateRow) (pristine : List Text) : List StateRow :=
  (journal.filter fun r => r.msgId ∈ unknownIds journal) ++
    ((loadStates journal).values.filter fun r =>
      r.msgId ∉ unknownIds journal && !r.state.terminal).map fun r => r.safe (r.msgId ∈ pristine)

/-- `compact(sessionDir, threshold)`, `none` where it throws. -/
def compact (sid : Text) (cfg : Config) (f : Files) : Option (List Write) :=
  if terminalCount f.journal < cfg.compactionThreshold then some []
  else
    match pristinePendingIds sid f with
    | none => none
    | some pristine =>
      some [.writeInbox (f.messages.filter fun m => kept f.journal m.msgId),
        .writeState (activeStates f.journal pristine)]

/-! ## Answers -/

inductive Answer where
  /-- `{ queued, pending }` -/
  | enqueued (queued : Bool) (pending : Nat)
  | message (m : Option Message)
  | flag (b : Bool)
  | count (n : Nat)
  | state (s : Option MsgState)
  | messages (l : List Summary)
  | done
  | threw

abbrev Outcome := Answer × List Write

/-- A row that changes the state alone. -/
def plainRow (id : Text) (state : MsgState) (now : Int) : StateRow := ⟨id, state, now, .plain⟩

def unknownRow (id : Text) (now : Int) : StateRow := ⟨id, .deadLetter, now, .uncertain⟩

/-! ## Enqueue and dequeue -/

/-- The pending row of a new message. -/
def Message.firstRow (m : Message) (now : Int) : StateRow :=
  ⟨m.msgId, .pending, now,
    if m.handoff.isSome ∧ m.attempt = 0 then .neverAttempted else .plain⟩

/-- `enqueue(msg)` -/
def enqueue (cfg : Config) (now : Int) (m : Message) (f : Files) : Outcome :=
  let mk := if f.dir then [] else [Write.mkdir]
  if (loadStates f.journal).has m.msgId then (.enqueued false (countPending f.journal), mk)
  else if m.createdAt + cfg.ttlSecs < now then (.threw, mk)
  else
    let ws := mk ++ [.appendInbox m, .appendState (m.firstRow now)]
    (.enqueued true (countPending (f.applyAll ws).journal), ws)

/-- One message of the search for the oldest one that is due. -/
def pickNext (states : OrdMap Text StateRow) (now : Int) (next : Option Message) (m : Message) :
    Option Message :=
  if ((states.get? m.msgId).any fun r => r.state = .pending) && m.createdAt ≤ now then
    match next with
    | none => some m
    | some n => if m.createdAt < n.createdAt then some m else some n
  else next

/-- The message a dequeue takes. -/
def nextMessage (now : Int) (f : Files) : Option Message :=
  (latest f.messages).values.foldl (pickNext (loadStates f.journal) now) none

/-- `dequeue(sessionId)` -/
def dequeue (now : Int) (f : Files) : Outcome :=
  if !f.dir then (.message none, []) else
  match nextMessage now f with
  | none => (.message none, [])
  | some m => (.message (some m), [.appendState (plainRow m.msgId .inFlight now)])

/-! ## Acknowledgement -/

/-- The delivery result an acknowledgement brings: no settlement proof, a proof that was used
before, or a fresh proof, whose publication fails at the time given or succeeds. -/
inductive Proof where
  | none
  | used
  | fresh (failure : Option Int)

/-- The evidence a trusted acknowledgement needs. -/
def ackEvidence (c : Custody) (id : Text) : Bool :=
  !c.journal.any StateRow.unknown && (c.states.get? id).any (fun r => r.state = .inFlight) &&
    (history c.journal id).any fun r => r.mark = .nonRetryableAttempt

/-- The writes `ws`, then the compaction of what they leave. -/
def thenCompact (sid : Text) (cfg : Config) (f : Files) (ws : List Write) (answer : Answer) :
    Outcome :=
  match compact sid cfg (f.applyAll ws) with
  | .none => (.threw, ws)
  | some ws' => (answer, ws ++ ws')

/-- `ack(sessionId, msgId, result)` -/
def ack (sid : Text) (cfg : Config) (now : Int) (id : Text) (proof : Proof) (f : Files) : Outcome :=
  if !f.dir then (.done, [])
  else if ((loadStates f.journal).get? id).any
      fun r => r.state = .acked || r.state = .deadLetter then (.done, [])
  else
    let ws := [Write.appendState (plainRow id .acked now)]
    match proof with
    | .used => (.done, [])
    | .none => thenCompact sid cfg f ws .done
    | .fresh failure =>
      match readCustody sid false f with
      | .none => (.threw, [])
      | some c =>
        if !ackEvidence c id then (.threw, [])
        else
          match readCustody sid false (f.applyAll ws), failure with
          | some c', .none =>
            if c'.unsettled then (.threw, ws ++ [.appendState (unknownRow id now)])
            else thenCompact sid cfg f ws .done
          | _, failure => (.threw, ws ++ [.appendState (unknownRow id (failure.getD now))])

/-! ## Failed deliveries -/

def Message.deadLetter (m : Message) (reason : Text) (uncertain : Bool) (details : Option Json)
    (now : Int) (attempts : Nat) : DeadLetter :=
  ⟨m.msgId, m.sender, m.recipient, m.payload, reason, uncertain, details, now, attempts⟩

/-- The writes of a failed attempt: another try after the backoff, or the dead letter. -/
def retry (cfg : Config) (now : Int) (m : Message) (reason : Text) : List Write :=
  let attempt := m.attempt + 1
  if cfg.maxRetries ≤ attempt then
    [.appendDead (m.deadLetter reason false none now attempt),
      .appendState (plainRow m.msgId .deadLetter now)]
  else
    [.appendState (plainRow m.msgId .nacked now),
      .appendInbox
        { m with createdAt := now + cfg.backoff attempt, attempt := attempt, handoff := none },
      .appendState (plainRow m.msgId .pending now)]

/-- `reason || fallback` -/
def reasonOr (reason fallback : Text) : Text := if reason = [] then fallback else reason

/-- `nack(sessionId, msgId, reason)` -/
def nack (cfg : Config) (now : Int) (id reason : Text) (f : Files) : Outcome :=
  if !f.dir then (.done, [])
  else if ((loadStates f.journal).get? id).any fun r => r.state = .deadLetter then (.done, [])
  else
    match latestOf id f.messages with
    | none => (.done, [])
    | some m => (.done, retry cfg now m (reasonOr reason "max_retries exhausted"))

/-- `beginNonRetryableAttempt(sessionId, msgId)` -/
def beginNonRetryableAttempt (now : Int) (id : Text) (f : Files) : Outcome :=
  if !f.dir then (.flag false, [])
  else
    match (loadStates f.journal).get? id with
    | none => (.flag false, [])
    | some r =>
      if r.state ≠ .inFlight then (.flag false, [])
      else if r.mark = .nonRetryableAttempt then (.flag true, [])
      else (.flag true, [.appendState ⟨id, .inFlight, now, .nonRetryableAttempt⟩])

structure WithdrawOptions where
  inFlight : Bool
  deliveryUncertain : Bool
  /-- `meta`, `none` where it is no object with members. -/
  details : Option Json

/-- `withdraw(sessionId, msgId, reason, options)` -/
def withdraw (now : Int) (id reason : Text) (o : WithdrawOptions) (f : Files) : Outcome :=
  if !f.dir then (.flag false, [])
  else if !((loadStates f.journal).get? id).any
      fun r => r.state = .pending || (o.inFlight && r.state = .inFlight) then (.flag false, [])
  else
    match latestOf id f.messages with
    | none => (.flag false, [])
    | some m =>
      (.flag true,
        [.appendDead (m.deadLetter (reasonOr reason "withdrawn") o.deliveryUncertain o.details now
            m.attempt),
          .appendState
            (if o.deliveryUncertain then unknownRow id now else plainRow id .deadLetter now)])

/-! ## Sweeps -/

/-- What the recovery does with one entry of the states it loaded. -/
def recoverEntry (cfg : Config) (now : Int) (f : Files) (id : Text) (r : StateRow) : List Write :=
  if r.state = .inFlight ∧ cfg.inflightTimeoutSecs ≤ now - r.ts then
    match latestOf id f.messages with
    | none => []
    | some m =>
      if r.mark = .nonRetryableAttempt then
        [.appendDead (m.deadLetter "delivery_outcome_unknown_after_interruption" true none now
            m.attempt),
          .appendState (unknownRow id now)]
      else retry cfg now m "inflight_timeout"
  else []

/-- The recovery over the remaining entries; each reads the inbox again. -/
def recoverEntries (cfg : Config) (now : Int) (f : Files) :
    List (Text × StateRow) → Nat × List Write
  | [] => (0, [])
  | (id, r) :: rest =>
    let ws := recoverEntry cfg now f id r
    let (n, ws') := recoverEntries cfg now (f.applyAll ws) rest
    (if ws.isEmpty then n else n + 1, ws ++ ws')

/-- `recoverInflight(sessionId)` -/
def recoverInflight (cfg : Config) (now : Int) (f : Files) : Outcome :=
  if !f.dir then (.count 0, [])
  else
    let (n, ws) := recoverEntries cfg now f (loadStates f.journal).entries
    (.count n, ws)

/-- Whether the sweep expires the message of an inbox row. -/
def stale (cfg : Config) (now : Int) (states : OrdMap Text StateRow) (m : Message) : Bool :=
  (states.get? m.msgId).any fun r =>
    r.mark ≠ .nonRetryableAttempt && (r.state = .pending || r.state = .inFlight) &&
      m.createdAt + cfg.ttlSecs < now

/-- `expireStale(sessionId)` -/
def expireStale (sid : Text) (cfg : Config) (now : Int) (f : Files) : Outcome :=
  if !f.dir then (.count 0, [])
  else
    let ws := (f.messages.filter (stale cfg now (loadStates f.journal))).map fun m =>
      Write.appendState (plainRow m.msgId .expired now)
    if ws.isEmpty then (.count 0, []) else thenCompact sid cfg f ws (.count ws.length)

/-! ## The other operations -/

/-- `messageState(sessionId, msgId)` -/
def messageState (id : Text) (f : Files) : Option MsgState :=
  if f.dir then ((loadStates f.journal).get? id).map (·.state) else none

/-- A summary into the map that keeps the latest attempt of each message. -/
def keepLatest (seen : OrdMap Text Summary) (s : Summary) : OrdMap Text Summary :=
  match seen.get? s.msgId with
  | none => seen.set s.msgId s
  | some e => if e.attempt < s.attempt then seen.set s.msgId s else seen

/-- `peek(sessionId)` -/
def peek (f : Files) : List Summary :=
  if !f.dir then []
  else
    let results := f.messages.filterMap fun m =>
      ((loadStates f.journal).get? m.msgId).map fun r =>
        (⟨m.msgId, m.sender, m.createdAt, m.attempt, r.state⟩ : Summary)
    (results.foldl keepLatest OrdMap.empty).values

/-- `purge(sessionId)` -/
def purge (f : Files) : Outcome :=
  if f.dir then (.done, [.writeInbox [], .writeState []]) else (.done, [])

/-- `purgeDeadLetter(sessionId)` -/
def purgeDeadLetter (f : Files) : Outcome :=
  if f.dir then (.done, [.writeDead []]) else (.done, [])

/-- `initializeCustody(sessionId)` -/
def initializeCustody (sid : Text) (f : Files) : Outcome :=
  let ws := if f.dir then [] else [.mkdir, .writeInbox [], .writeState []]
  match strictCustodySnapshot sid (f.applyAll ws) with
  | none => (.threw, ws)
  | some _ => (.done, ws)

/-- `compact(sessionDir, threshold)` by itself. -/
def compaction (sid : Text) (cfg : Config) (f : Files) : Outcome :=
  thenCompact sid cfg f [] .done

/-! ## Runs -/

/-- A call of an exported operation. -/
inductive Call where
  | enqueue (m : Message)
  | dequeue
  | ack (id : Text) (proof : Proof)
  | nack (id reason : Text)
  | beginNonRetryableAttempt (id : Text)
  | withdraw (id reason : Text) (o : WithdrawOptions)
  | expireStale
  | recoverInflight
  | compact
  | messageState (id : Text)
  | peek
  | purge
  | purgeDeadLetter
  | initializeCustody

/-- A call on the mailbox of session `sid`. The session of a message is its recipient. -/
def perform (sid : Text) (cfg : Config) (now : Int) (f : Files) : Call → Outcome
  | .enqueue m => enqueue cfg now { m with recipient := sid } f
  | .dequeue => dequeue now f
  | .ack id proof => ack sid cfg now id proof f
  | .nack id reason => nack cfg now id reason f
  | .beginNonRetryableAttempt id => beginNonRetryableAttempt now id f
  | .withdraw id reason o => withdraw now id reason o f
  | .expireStale => expireStale sid cfg now f
  | .recoverInflight => recoverInflight cfg now f
  | .compact => compaction sid cfg f
  | .messageState id => (.state (messageState id f), [])
  | .peek => (.messages (peek f), [])
  | .purge => purge f
  | .purgeDeadLetter => purgeDeadLetter f
  | .initializeCustody => initializeCustody sid f

/-- Where the process dies during a call: after `done` of its writes, and after `torn` bytes of the
next one where that had begun. -/
structure Crash where
  done : Nat
  torn : Option Nat

/-- The files a crash leaves. -/
def Files.crash (f : Files) (ws : List Write) (c : Crash) : Files :=
  match c.torn, ws[c.done]? with
  | some n, some w => (f.applyAll (ws.take c.done)).cut n w
  | _, _ => f.applyAll (ws.take c.done)

/-- A call and, where the process dies in it, the crash. -/
structure Step where
  now : Int
  call : Call
  crash : Option Crash

variable (sid : Text) (cfg : Config)

def Step.writes (s : Step) (f : Files) : List Write := (perform sid cfg s.now f s.call).2

/-- The answer, `none` where the process dies before it. -/
def Step.answer (s : Step) (f : Files) : Option Answer :=
  if s.crash.isSome then none else some (perform sid cfg s.now f s.call).1

def Step.after (s : Step) (f : Files) : Files :=
  match s.crash with
  | none => f.applyAll (s.writes sid cfg f)
  | some c => f.crash (s.writes sid cfg f) c

/-- The files after a run. -/
def run (f : Files) (steps : List Step) : Files := steps.foldl (fun f s => s.after sid cfg f) f

@[simp] theorem run_nil (f : Files) : run sid cfg f [] = f := rfl

@[simp] theorem run_cons (f : Files) (s : Step) (steps : List Step) :
    run sid cfg f (s :: steps) = run sid cfg (s.after sid cfg f) steps := rfl

theorem run_append (f : Files) (steps steps' : List Step) :
    run sid cfg f (steps ++ steps') = run sid cfg (run sid cfg f steps) steps' :=
  List.foldl_append

end Telepty.Mailbox
