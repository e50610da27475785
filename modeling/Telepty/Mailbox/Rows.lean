import Telepty.Infra.Jsonl
import Telepty.Infra.OrdMap

/-!
# The files of a mailbox

A session's mailbox is a directory of JSON lines: messages in `inbox.jsonl`, states in
`state.jsonl`, given-up messages in `dead-letter.jsonl`. The files only grow by whole rows, apart
from the compaction, which truncates a file and writes it anew.

A process can die inside a write: an append then leaves the first bytes of its row, a rewrite leaves
the first bytes of the new file (`Files.cut`). A file whose bytes are exactly its rows is *clean*.
-/

namespace Telepty.Mailbox

open Infra

/-! ## Rows -/

/-- A row of `inbox.jsonl`. `sender` is the source's `from`, `recipient` its `to`, `handoff` its
`cooperative_handoff`, `none` for a falsy one. -/
structure Message where
  msgId : Text
  sender : Option Text
  recipient : Text
  payload : Text
  createdAt : Int
  attempt : Nat
  handoff : Option Json

inductive MsgState where
  | pending
  | inFlight
  | acked
  | nacked
  | expired
  | deadLetter
  deriving DecidableEq

/-- What a state row says about the attempt beside its state. -/
inductive Mark where
  | plain
  /-- `never_attempted: true` -/
  | neverAttempted
  /-- `non_retryable_attempt: true` -/
  | nonRetryableAttempt
  /-- `delivery_uncertain: true, outcome: 'unknown', retryable: false` -/
  | uncertain
  deriving DecidableEq

/-- A row of `state.jsonl`. -/
structure StateRow where
  msgId : Text
  state : MsgState
  ts : Int
  mark : Mark
  deriving DecidableEq

/-- A row of `dead-letter.jsonl`. -/
structure DeadLetter where
  msgId : Text
  sender : Option Text
  recipient : Text
  payload : Text
  reason : Text
  uncertain : Bool
  details : Option Json
  failedAt : Int
  attempts : Nat

/-! ## Rows as JSON -/

def MsgState.text : MsgState → Text
  | .pending => "pending"
  | .inFlight => "in_flight"
  | .acked => "acked"
  | .nacked => "nacked"
  | .expired => "expired"
  | .deadLetter => "dead_letter"

def MsgState.all : List MsgState := [.pending, .inFlight, .acked, .nacked, .expired, .deadLetter]

def MsgState.ofText (t : Text) : Option MsgState := MsgState.all.find? fun s => s.text = t

@[simp] theorem MsgState.ofText_text (s : MsgState) : ofText s.text = some s := by
  cases s <;> decide

/-- A member before others, left out where it is `undefined`. -/
def optional (k : Text) (v : Option Json) (rest : List (Text × Json)) : List (Text × Json) :=
  match v with
  | none => rest
  | some v => (k, v) :: rest

def Message.toJson (m : Message) : Json :=
  .obj (("msg_id", .str m.msgId) :: optional "from" (m.sender.map .str)
    (("to", .str m.recipient) :: ("payload", .str m.payload) ::
      ("created_at", .num m.createdAt) :: ("attempt", .num m.attempt) ::
        optional "cooperative_handoff" m.handoff []))

def Mark.members : Mark → List (Text × Json)
  | .plain => []
  | .neverAttempted => [("never_attempted", .bool true)]
  | .nonRetryableAttempt => [("non_retryable_attempt", .bool true)]
  | .uncertain =>
    [("delivery_uncertain", .bool true), ("outcome", .str ("unknown" : Text)),
      ("retryable", .bool false)]

def StateRow.toJson (r : StateRow) : Json :=
  .obj (("msg_id", .str r.msgId) :: ("state", .str r.state.text) :: ("ts", .num r.ts) ::
    r.mark.members)

def DeadLetter.toJson (d : DeadLetter) : Json :=
  .obj (("msg_id", .str d.msgId) :: optional "from" (d.sender.map .str)
    (("to", .str d.recipient) :: ("payload", .str d.payload) :: ("reason", .str d.reason) ::
      ((if d.uncertain then Mark.uncertain.members else []) ++ optional "meta" d.details
        [("failed_at", .num d.failedAt), ("attempts", .num d.attempts)])))

def isTrue : Option Json → Bool
  | some (.bool b) => b
  | _ => false

def isFalse : Option Json → Bool
  | some (.bool b) => !b
  | _ => false

def isText (t : Text) : Option Json → Bool
  | some (.str s) => s = t
  | _ => false

def number : Option Json → Option Int
  | some (.num n) => some n
  | _ => none

/-- The row of a line. Every line the operations write is a row, so other lines are left out. -/
def Message.ofJson (j : Json) : Option Message := do
  let msgId ← (j.field "msg_id").bind Json.asText
  let recipient ← (j.field "to").bind Json.asText
  let payload ← (j.field "payload").bind Json.asText
  let createdAt ← number (j.field "created_at")
  let attempt ← number (j.field "attempt")
  if attempt < 0 then none else
  some { msgId, sender := (j.field "from").bind Json.asText, recipient, payload, createdAt,
         attempt := attempt.toNat, handoff := j.field "cooperative_handoff" }

def Mark.ofJson (j : Json) : Mark :=
  if isTrue (j.field "delivery_uncertain") || isText "unknown" (j.field "outcome") ||
      isFalse (j.field "retryable") then .uncertain
  else if isTrue (j.field "non_retryable_attempt") then .nonRetryableAttempt
  else if isTrue (j.field "never_attempted") then .neverAttempted
  else .plain

def StateRow.ofJson (j : Json) : Option StateRow := do
  let msgId ← (j.field "msg_id").bind Json.asText
  let state ← ((j.field "state").bind Json.asText).bind MsgState.ofText
  let ts ← number (j.field "ts")
  some { msgId, state, ts, mark := .ofJson j }

@[simp] theorem Message.ofJson_toJson (m : Message) : ofJson m.toJson = some m := by
  obtain ⟨msgId, sender, recipient, payload, createdAt, attempt, handoff⟩ := m
  cases sender <;> cases handoff <;> rfl

@[simp] theorem StateRow.ofJson_toJson (r : StateRow) : ofJson r.toJson = some r := by
  obtain ⟨msgId, state, ts, mark⟩ := r
  -- the names and texts of a row are fixed, so both cases compute
  cases mark <;> cases state <;> rfl

theorem Message.isObject_toJson (m : Message) : m.toJson.isObject := rfl

theorem StateRow.isObject_toJson (r : StateRow) : r.toJson.isObject := rfl

/-! ## Files -/

/-- The session's directory. A file is `none` where it does not exist. -/
structure Files where
  dir : Bool
  inbox : Option Bytes
  state : Option Bytes
  deadLetter : Option Bytes

/-- No session directory. -/
def Files.absent : Files := ⟨false, none, none, none⟩

/-- `fs.readFileSync(p)`, empty where the file does not exist. -/
def content (file : Option Bytes) : Bytes := file.getD []

/-- `loadMessages(sessionDir)` -/
def Files.messages (f : Files) : List Message :=
  (readJsonl (content f.inbox)).filterMap Message.ofJson

/-- `readJsonl('state.jsonl')` -/
def Files.journal (f : Files) : List StateRow :=
  (readJsonl (content f.state)).filterMap StateRow.ofJson

inductive Write where
  | mkdir
  | appendInbox (m : Message)
  | appendState (r : StateRow)
  | appendDead (d : DeadLetter)
  | writeInbox (ms : List Message)
  | writeState (rs : List StateRow)
  | writeDead (ds : List DeadLetter)

/-- What the write carries. -/
def Write.bytes : Write → Bytes
  | .mkdir => []
  | .appendInbox m => jsonlBytes [m.toJson]
  | .appendState r => jsonlBytes [r.toJson]
  | .appendDead d => jsonlBytes [d.toJson]
  | .writeInbox ms => jsonlBytes (ms.map Message.toJson)
  | .writeState rs => jsonlBytes (rs.map StateRow.toJson)
  | .writeDead ds => jsonlBytes (ds.map DeadLetter.toJson)

/-- The write as far as its first `n` bytes. -/
def Files.cut (f : Files) (n : Nat) (w : Write) : Files :=
  match w with
  | .mkdir => { f with dir := true }
  | .appendInbox _ => { f with inbox := some (content f.inbox ++ w.bytes.take n) }
  | .appendState _ => { f with state := some (content f.state ++ w.bytes.take n) }
  | .appendDead _ => { f with deadLetter := some (content f.deadLetter ++ w.bytes.take n) }
  | .writeInbox _ => { f with inbox := some (w.bytes.take n) }
  | .writeState _ => { f with state := some (w.bytes.take n) }
  | .writeDead _ => { f with deadLetter := some (w.bytes.take n) }

def Files.apply (f : Files) (w : Write) : Files := f.cut w.bytes.length w

def Files.applyAll (f : Files) (ws : List Write) : Files := ws.foldl Files.apply f

@[simp] theorem Files.applyAll_nil (f : Files) : f.applyAll [] = f := rfl

@[simp] theorem Files.applyAll_cons (f : Files) (w : Write) (ws : List Write) :
    f.applyAll (w :: ws) = (f.apply w).applyAll ws := rfl

theorem Files.applyAll_append (f : Files) (ws ws' : List Write) :
    f.applyAll (ws ++ ws') = (f.applyAll ws).applyAll ws' := List.foldl_append

/-! ## Clean files -/

/-- `state.jsonl` is exactly its rows, a line each. -/
def Files.StateClean (f : Files) : Prop :=
  content f.state = jsonlBytes (f.journal.map StateRow.toJson)

/-- `inbox.jsonl` is exactly its rows, a line each. -/
def Files.InboxClean (f : Files) : Prop :=
  content f.inbox = jsonlBytes (f.messages.map Message.toJson)

theorem readJsonl_states (rs : List StateRow) :
    (readJsonl (jsonlBytes (rs.map StateRow.toJson))).filterMap StateRow.ofJson = rs := by
  rw [readJsonl_jsonlBytes, List.filterMap_map]
  · exact (List.filterMap_congr fun r _ => StateRow.ofJson_toJson r).trans List.filterMap_some
  · intro j hj
    obtain ⟨r, -, rfl⟩ := List.mem_map.mp hj
    exact r.isObject_toJson

theorem readJsonl_messages (ms : List Message) :
    (readJsonl (jsonlBytes (ms.map Message.toJson))).filterMap Message.ofJson = ms := by
  rw [readJsonl_jsonlBytes, List.filterMap_map]
  · exact (List.filterMap_congr fun m _ => Message.ofJson_toJson m).trans List.filterMap_some
  · intro j hj
    obtain ⟨m, -, rfl⟩ := List.mem_map.mp hj
    exact m.isObject_toJson

/-- The journal of a state file that holds the rows `rs`. -/
theorem Files.journal_of_content {f : Files} {rs : List StateRow}
    (h : content f.state = jsonlBytes (rs.map StateRow.toJson)) :
    f.journal = rs ∧ f.StateClean := by
  have hj : f.journal = rs := by rw [journal, h, readJsonl_states]
  exact ⟨hj, by rw [StateClean, h, hj]⟩

theorem Files.messages_of_content {f : Files} {ms : List Message}
    (h : content f.inbox = jsonlBytes (ms.map Message.toJson)) :
    f.messages = ms ∧ f.InboxClean := by
  have hm : f.messages = ms := by rw [messages, h, readJsonl_messages]
  exact ⟨hm, by rw [InboxClean, h, hm]⟩

/-- What a write makes of the rows of `state.jsonl`. -/
def Write.onState (j : List StateRow) : Write → List StateRow
  | .appendState r => j ++ [r]
  | .writeState rs => rs
  | _ => j

/-- What a write makes of the rows of `inbox.jsonl`. -/
def Write.onInbox (ms : List Message) : Write → List Message
  | .appendInbox m => ms ++ [m]
  | .writeInbox ms' => ms'
  | _ => ms

theorem Files.apply_state (f : Files) (w : Write) (h : f.StateClean) :
    (f.apply w).journal = w.onState f.journal ∧ (f.apply w).StateClean := by
  cases w with
  | appendState r =>
    refine journal_of_content ?_
    rw [Write.onState, List.map_append, jsonlBytes_append, ← h]
    simp only [apply, cut, List.take_length]
    rfl
  | writeState rs =>
    refine journal_of_content ?_
    simp only [apply, cut, List.take_length]
    rfl
  | _ => exact ⟨rfl, h⟩

theorem Files.apply_inbox (f : Files) (w : Write) (h : f.InboxClean) :
    (f.apply w).messages = w.onInbox f.messages ∧ (f.apply w).InboxClean := by
  cases w with
  | appendInbox m =>
    refine messages_of_content ?_
    rw [Write.onInbox, List.map_append, jsonlBytes_append, ← h]
    simp only [apply, cut, List.take_length]
    rfl
  | writeInbox ms =>
    refine messages_of_content ?_
    simp only [apply, cut, List.take_length]
    rfl
  | _ => exact ⟨rfl, h⟩

/-- **Whole writes keep the state file clean, and act on its rows.** -/
theorem Files.applyAll_state {f : Files} (ws : List Write) (h : f.StateClean) :
    (f.applyAll ws).journal = ws.foldl Write.onState f.journal ∧ (f.applyAll ws).StateClean := by
  induction ws generalizing f with
  | nil => exact ⟨rfl, h⟩
  | cons w ws ih =>
    obtain ⟨hj, hc⟩ := f.apply_state w h
    rw [applyAll_cons, List.foldl_cons, ← hj]
    exact ih hc

/-- **Whole writes keep the inbox clean, and act on its rows.** -/
theorem Files.applyAll_inbox {f : Files} (ws : List Write) (h : f.InboxClean) :
    (f.applyAll ws).messages = ws.foldl Write.onInbox f.messages ∧ (f.applyAll ws).InboxClean := by
  induction ws generalizing f with
  | nil => exact ⟨rfl, h⟩
  | cons w ws ih =>
    obtain ⟨hj, hc⟩ := f.apply_inbox w h
    rw [applyAll_cons, List.foldl_cons, ← hj]
    exact ih hc

end Telepty.Mailbox
