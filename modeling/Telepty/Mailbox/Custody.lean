import Telepty.Mailbox.Rows

/-!
# The strict reader

Custody reads a mailbox without tolerance: bounded files, every line one unambiguous JSON value,
every row of the exact shape. Whatever it does not understand it refuses, as a receipt for a mailbox
must not turn damage into an empty queue. The compaction uses it as well, to find the messages whose
single state row still says that they were never attempted.
-/

namespace Telepty.Mailbox

open Infra

/-! ## Unambiguous JSON -/

mutual

/-- How many values a value consists of, itself included. -/
def nodes : Json → Nat
  | .arr items => nodesItems items + 1
  | .obj members => nodesMembers members + 1
  | _ => 1

def nodesItems : List Json → Nat
  | [] => 0
  | x :: xs => nodes x + nodesItems xs

def nodesMembers : List (Text × Json) → Nat
  | [] => 0
  | (_, v) :: ms => nodes v + nodesMembers ms

end

mutual

/-- How deep values are nested, 0 for a value without values in it. -/
def depth : Json → Nat
  | .arr items => depthItems items
  | .obj members => depthMembers members
  | _ => 0

def depthItems : List Json → Nat
  | [] => 0
  | x :: xs => max (depth x + 1) (depthItems xs)

def depthMembers : List (Text × Json) → Nat
  | [] => 0
  | (_, v) :: ms => max (depth v + 1) (depthMembers ms)

end

mutual

/-- No object in the value names a member twice. -/
def distinctNames : Json → Bool
  | .arr items => distinctItems items
  | .obj members => (members.map Prod.fst).Nodup && distinctMembers members
  | _ => true

def distinctItems : List Json → Bool
  | [] => true
  | x :: xs => distinctNames x && distinctItems xs

def distinctMembers : List (Text × Json) → Bool
  | [] => true
  | (_, v) :: ms => distinctNames v && distinctMembers ms

end

def byteLength (t : Text) : Nat := (encodeText t).length

def maxJsonBytes : Nat := 100 * 1024

def unambiguous (j : Json) : Bool := nodes j ≤ 4096 && depth j ≤ 32 && distinctNames j

/-- `parseUnambiguousJSON(t)` -/
def parseUnambiguousJSON (t : Text) : Option Json :=
  if byteLength t ≤ maxJsonBytes then (Json.parse t).filter unambiguous else none

/-! ## Reading a file -/

def maxFileBytes : Nat := 8 * 1024 * 1024

def maxRows : Nat := 20000

/-- `text.split('\n').filter(line => line.trim())` -/
def nonblankLines (t : Text) : List Text := (t.splitOn '\n').filter fun l => trim l ≠ []

/-- `readStrict(file)`, `none` where it throws. -/
def readStrict : Option Bytes → Option (List Json)
  | none => none
  | some b =>
    let t := decodeText b
    if b.length ≤ maxFileBytes ∧ encodeText t = b ∧ (t = [] ∨ t.getLast? = some '\n') ∧
        (nonblankLines t).length ≤ maxRows then
      (nonblankLines t).mapM parseUnambiguousJSON
    else none

/-! ## Rows -/

def maxSafeInteger : Int := 9007199254740991

/-- `Number.isSafeInteger(n) && n >= 0` -/
def safeNat (n : Int) : Bool := 0 ≤ n && n ≤ maxSafeInteger

def isControl (c : Char) : Bool := c.toNat ≤ 0x1F || c.toNat = 0x7F

/-- `boundedId(value)` -/
def boundedId (id : Text) : Bool := id ≠ [] && byteLength id ≤ 128 && !id.any isControl

def messageFields : List Text :=
  ["msg_id", "to", "from", "payload", "created_at", "attempt", "cooperative_handoff"]

def stateFields : List Text :=
  ["msg_id", "state", "ts", "attempt", "never_attempted", "non_retryable_attempt",
    "delivery_uncertain", "outcome", "retryable"]

def fieldsIn (names : List Text) : Json → Bool
  | .obj members => members.all fun e => e.1 ∈ names
  | _ => false

/-- `row.from == null`, or a text of at most 512 bytes. -/
def senderFits : Option Json → Bool
  | none | some .null => true
  | some (.str s) => byteLength s ≤ 512
  | _ => false

/-- The message of a row, `none` where custody refuses the row by itself. -/
def custodyMessage (sid : Text) (j : Json) : Option Message :=
  (Message.ofJson j).filter fun m =>
    boundedId m.msgId && m.recipient = sid && safeNat m.createdAt && safeNat m.attempt &&
      senderFits (j.field "from") && fieldsIn messageFields j

/-- Whether a row may follow an earlier row of its message. -/
def follows (compaction : Bool) (previous m : Message) : Bool :=
  previous.payload = m.payload && previous.sender = m.sender &&
    (previous.createdAt = m.createdAt ||
      (compaction && previous.attempt < m.attempt && 0 < m.attempt))

/-- One row of the inbox into the map of messages. -/
def custodyAdd (sid : Text) (compaction : Bool) (messages : OrdMap Text Message) (j : Json) :
    Option (OrdMap Text Message) :=
  match custodyMessage sid j with
  | none => none
  | some m =>
    match messages.get? m.msgId with
    | none => some (messages.set m.msgId m)
    | some previous =>
      if follows compaction previous m then
        some (if previous.attempt ≤ m.attempt then messages.set m.msgId m else messages)
      else none

/-- What a mark may stand beside. -/
def Mark.fits (state : MsgState) : Mark → Bool
  | .plain => true
  | .neverAttempted => state = .pending
  | .nonRetryableAttempt => state = .inFlight
  | .uncertain => state = .deadLetter

/-- The state of a row, `none` where custody refuses the row. -/
def custodyState (messages : OrdMap Text Message) (j : Json) : Option StateRow :=
  (StateRow.ofJson j).filter fun r =>
    boundedId r.msgId && safeNat r.ts && messages.has r.msgId && r.mark.fits r.state &&
      fieldsIn stateFields j

/-! ## The states of a journal -/

/-- `loadStates(sessionDir)`: the last row of each message, by first appearance. -/
def loadStates (journal : List StateRow) : OrdMap Text StateRow :=
  OrdMap.empty.setAll (journal.map fun r => (r.msgId, r))

/-- `['acked', 'expired', 'dead_letter'].includes(state)` -/
def MsgState.terminal : MsgState → Bool
  | .acked | .expired | .deadLetter => true
  | _ => false

/-- `delivery_uncertain === true || outcome === 'unknown' || retryable === false` -/
def StateRow.unknown (r : StateRow) : Bool := r.mark = .uncertain

/-- `histories.get(id)` -/
def history (journal : List StateRow) (id : Text) : List StateRow :=
  journal.filter fun r => r.msgId = id

/-! ## Custody -/

structure Custody where
  inbox : List Message
  journal : List StateRow
  messages : OrdMap Text Message
  states : OrdMap Text StateRow
  unsettled : Bool

def lower (c : Char) : Char := if 'A' ≤ c ∧ c ≤ 'Z' then Char.ofNat (c.toNat + 32) else c

/-- `/unknown|uncertain/i.test(reason)` -/
def saysUnknown (reason : Text) : Bool :=
  let t := reason.map lower
  t.tails.any fun u => ("unknown" : Text).isPrefixOf u || ("uncertain" : Text).isPrefixOf u

/-- Whether a given-up message has an unknown outcome. -/
def deadUnknown (j : Json) : Bool :=
  Mark.ofJson j = .uncertain || saysUnknown (j.textField "reason")

/-- `readCustody(directory, sessionId, { compaction })`, `none` where it throws. -/
def readCustody (sid : Text) (compaction : Bool) (f : Files) : Option Custody := do
  let inbox ← readStrict f.inbox
  let journal ← readStrict f.state
  let messages ← inbox.foldlM (custodyAdd sid compaction) OrdMap.empty
  let rows ← journal.mapM (custodyState messages)
  let states := loadStates rows
  let dead ← if f.deadLetter.isSome then readStrict f.deadLetter else some []
  some
    { inbox := inbox.filterMap (custodyMessage sid), journal := rows, messages, states
      unsettled := rows.any StateRow.unknown ||
        rows.any (fun r => r.mark = .nonRetryableAttempt &&
          !((states.get? r.msgId).any fun s => s.state.terminal)) ||
        dead.any deadUnknown }

/-- What `peek` and the snapshots tell of a message. -/
structure Summary where
  msgId : Text
  sender : Option Text
  createdAt : Int
  attempt : Nat
  state : MsgState
  deriving DecidableEq

/-- `strictCustodySnapshot(directory, sessionId)` -/
def strictCustodySnapshot (sid : Text) (f : Files) : Option (List Summary) := do
  let c ← readCustody sid false f
  if c.unsettled then none else
  let all ← c.messages.entries.mapM fun e =>
    match c.states.get? e.1 with
    | none => none
    | some s => if s.state = .nacked then none else some (e.2, s.state)
  some <| all.filterMap fun e =>
    if e.2 = .pending ∨ e.2 = .inFlight then
      some ⟨e.1.msgId, e.1.sender, e.1.createdAt, e.1.attempt, e.2⟩
    else none

/-- `pristinePendingIds(directory, sessionId)` -/
def pristinePendingIds (sid : Text) (f : Files) : Option (List Text) := do
  let c ← readCustody sid true f
  some <| (c.messages.entries.filter fun e =>
    ((c.states.get? e.1).any fun s => s.state = .pending) && e.2.attempt = 0 &&
      (c.inbox.filter fun m => m.msgId = e.1).length = 1 &&
      (history c.journal e.1).map (·.mark) = [.neverAttempted]).map Prod.fst

end Telepty.Mailbox
