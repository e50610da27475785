import Telepty.Infra.Replace
import Telepty.Principal.Canonical

/-!
# Settlements of handed-off messages

`handoff-settlement.js` keeps one row for each message of a cooperative handoff that the new owner has
written: JSON rows in one file, which a commit replaces as a whole. A row is what `parseUnambiguousJSON`
gives for its line, so it keeps the order of its members.

The proof that a commit is given was captured from the write; what it binds is a parameter here. So are
the numbers of the language and `bodyDigest`.
-/

namespace Telepty.Mailbox.Settlement

open Infra Rfc8259 Principal.Encoding Prog

/-! ## Rows -/

/-- The numbers of the language. -/
structure Numbers (N : Type) extends Numeric N where
  print : N → Units
  /-- `Number.isSafeInteger(n) && n >= 0` -/
  safe : N → Bool
  /-- a time of `Date.now()` -/
  time : Nat → N

/-- What a member of a row must be. -/
inductive Kind where
  | literal (t : String)
  | text
  | epoch
  | uuid
  | hash
  | time

/-- A text whose units are of these classes, one after another. -/
def fits : List (CodeUnit → Bool) → Units → Bool
  | [], [] => true
  | p :: ps, u :: t => p u && fits ps t
  | _, _ => false

/-- `[a-f0-9]` -/
def isHex (u : CodeUnit) : Bool := u.isDigit || (0x61 ≤ u && u ≤ 0x66)

/-- `[A-Za-z0-9_-]` -/
def isWord (u : CodeUnit) : Bool :=
  u.isDigit || (0x61 ≤ u && u ≤ 0x7A) || (0x41 ≤ u && u ≤ 0x5A) || u = unit '_' || u = unit '-'

/-- `/^[a-f0-9]{8}-[a-f0-9]{4}-4[a-f0-9]{3}-[89ab][a-f0-9]{3}-[a-f0-9]{12}$/` -/
def uuidPattern : List (CodeUnit → Bool) :=
  let hyphen : CodeUnit → Bool := fun u => u = unit '-'
  List.replicate 8 isHex ++ hyphen :: List.replicate 4 isHex ++ hyphen :: (fun u => u = unit '4') ::
    List.replicate 3 isHex ++ hyphen ::
    (fun u => u = unit '8' || u = unit '9' || u = unit 'a' || u = unit 'b') ::
    List.replicate 3 isHex ++ hyphen :: List.replicate 12 isHex

section

variable {N : Type} (L : Numbers N)

def Kind.holds : Kind → Value N → Bool
  | .literal t, .str s => s = codeUnits t
  | .text, .str s => s ≠ [] && utf8Length s ≤ 128 && s.all fun u => !(u < 0x20 || u = 0x7F)
  | .epoch, .str s => fits (List.replicate 22 isWord) s
  | .uuid, .str s => fits uuidPattern s
  | .hash, .str s => fits (List.replicate 64 isHex) s
  | .time, .num n => L.safe n
  | _, _ => false

/-- The members of a row, `fields` in their order. -/
def fields : List (String × Kind) :=
  [("schema", .literal "telepty.pending-transport-ack/v1"), ("session_id", .text),
    ("session_epoch", .epoch), ("origin_epoch", .epoch), ("origin_owner_generation", .uuid),
    ("intent_id", .uuid), ("pending_digest", .hash), ("msg_id", .text), ("message_digest", .hash),
    ("measurement", .literal "bridge_child_write_invoked"), ("mailbox_state", .literal "acked"),
    ("consumption", .literal "unknown"), ("reply", .literal "unknown"), ("ack_at", .time)]

abbrev Row (N : Type) := Value N

/-- `row[name]` -/
def get (row : Row N) (name : String) : Option (Value N) :=
  match row with
  | .obj ms => (ms.find? fun m => m.1 = codeUnits name).map Prod.snd
  | _ => none

/-- The text of a member; a row that is valid has it. -/
def textOf (row : Row N) (name : String) : Option Units :=
  match get row name with
  | some (.str s) => some s
  | _ => none

def valid (row : Row N) : Bool :=
  match row with
  | .obj ms =>
    ms.length = fields.length && (ms.all fun m => fields.any fun f => m.1 = codeUnits f.1) &&
      (fields.all fun f => (get row f.1).any (f.2.holds L)) &&
      textOf row "session_epoch" ≠ textOf row "origin_epoch"
  | _ => false

/-- What a commit binds: `binding(sessionId, event, row)`. -/
@[ext] structure Binding where
  sessionId : Units
  sessionEpoch : Units
  originEpoch : Units
  originOwnerGeneration : Units
  intentId : Units
  pendingDigest : Units
  msgId : Units
  messageDigest : Units
  deriving DecidableEq

def Binding.members (b : Binding) : List (String × Units) :=
  [("schema", codeUnits "telepty.pending-transport-ack/v1"), ("session_id", b.sessionId),
    ("session_epoch", b.sessionEpoch), ("origin_epoch", b.originEpoch),
    ("origin_owner_generation", b.originOwnerGeneration), ("intent_id", b.intentId),
    ("pending_digest", b.pendingDigest), ("msg_id", b.msgId), ("message_digest", b.messageDigest),
    ("measurement", codeUnits "bridge_child_write_invoked"), ("mailbox_state", codeUnits "acked"),
    ("consumption", codeUnits "unknown"), ("reply", codeUnits "unknown")]

/-- What a commit looks for among the rows. -/
def Binding.key (b : Binding) : List (Option Units) :=
  [some b.sessionId, some b.sessionEpoch, some b.intentId, some b.msgId]

def same (row : Row N) (b : Binding) : Bool := b.members.all fun m => textOf row m.1 = some m.2

/-- The row of a binding that was acknowledged at a time. -/
def Binding.row (b : Binding) (at_ : N) : Row N :=
  .obj ((b.members.map fun m => (codeUnits m.1, .str m.2)) ++ [(codeUnits "ack_at", .num at_)])

/-! ## The file -/

/-- `MAX_RECORDS` -/
def maxRecords : Nat := 512

/-- `MAX_BYTES` -/
def maxBytes : Nat := 512 * 1024

def lineFeed : CodeUnit := unit '\n'

/-- `JSON.stringify(row) + '\n'` -/
def lineOf (row : Row N) : Units := stringify L.print row ++ [lineFeed]

def fileText (rows : List (Row N)) : Units := rows.flatMap (lineOf L)

/-- What a row is a settlement of. -/
def keyOf (row : Row N) : List (Option Units) :=
  [textOf row "session_id", textOf row "session_epoch", textOf row "intent_id", textOf row "msg_id"]

variable {D : Type} [DecidableEq D] (digest : List (Option Units) → D)

/-- What `readSettlements` makes of the bytes of the file. -/
def readRows (bytes : Bytes) : Option (List (Row N)) :=
  let source := codeUnits (decodeText bytes)
  if maxBytes < bytes.length then none
  else if encodeText (decodeText bytes) ≠ bytes then none
  else if source ≠ [] ∧ source.getLast? ≠ some lineFeed then none
  else
    let lines := (source.splitOn lineFeed).filter (· ≠ [])
    if maxRecords < lines.length then none
    else
      (lines.mapM (Principal.Encoding.parseUnambiguousJSON L.toNumeric)).bind fun rows =>
        if rows.any fun row => !valid L row then none
        else if (rows.map fun row => digest (keyOf row)).Nodup then some rows
        else none

/-- `handoff-settlements.jsonl` -/
def fileName : Text := "handoff-settlements.jsonl"

def readSettlements (directory : Path) (fs : FS) : Option (List (Row N)) :=
  match fs.get? (joinPath directory fileName) with
  | none => some []
  | some .dir => none
  | some (.file bytes) => readRows L digest bytes

/-! ## Commits -/

/-- `HANDOFF_SETTLEMENT_UNAVAILABLE` -/
def unavailable : Failure := ⟨"HANDOFF_SETTLEMENT_UNAVAILABLE", "Handoff ACK settlement unavailable"⟩

/-- What `captureSettlement` has put by for a result. -/
structure Captured where
  binding : Binding
  /-- `bodyDigest(message)` -/
  digest : Units

structure Call where
  captured : Option Captured
  sessionId : Units
  msgId : Units
  /-- `bodyDigest(message)` -/
  digest : Units

/-- The file is replaced, and both directories are synced. -/
def publish (env : Env) (directory tmp : Path) (bytes : Bytes) : Prog Unit Unit Bool :=
  ((do
    writeTemp env tmp bytes
    let _ ← sys env (.rename tmp (joinPath directory fileName))
    let _ ← sys env (.fsync directory)
    let _ ← sys env (.fsync directory.dropLast)
    return true).catching fun _ => raise unavailable).finallyDo
    (discard env tmp fun e => e.code = Errno.ENOENT.text)

/-- `commitSettlement(directory, sessionId, message, result)` -/
def commitSettlement (env : Env) (directory : Path) (call : Call) : Prog Unit Unit Bool := do
  match call.captured with
  | none => return false
  | some p =>
    if p.binding.sessionId ≠ call.sessionId ∨ p.binding.msgId ≠ call.msgId ∨
        p.digest ≠ call.digest then
      raise unavailable
    else
      let fs ← disk
      match readSettlements L digest directory fs with
      | none => raise unavailable
      | some rows =>
        match rows.find? fun row => keyOf row = p.binding.key with
        | some prior => if same prior p.binding then return true else raise unavailable
        | none =>
          if maxRecords ≤ rows.length then raise unavailable
          else
            let at_ ← now env
            let next := p.binding.row (L.time at_)
            let bytes := encodeText (scalars (fileText L (rows ++ [next])))
            if valid L next = false then raise unavailable
            else if maxBytes < bytes.length then raise unavailable
            else
              let name ← random env
              publish env directory
                (joinPath directory (fileName ++ '.' :: name ++ ['.', 't', 'm', 'p'])) bytes

/-! ## Runs -/

/-- What the caller of a commit is told. -/
inductive Answer where
  | confirmed
  /-- there was no proof to commit -/
  | unproved
  | refused
  /-- the process died in it -/
  | died
  deriving DecidableEq

def commitOn (env : Env) (directory : Path) (call : Call) (m : Machine Unit Unit) :
    Answer × Machine Unit Unit :=
  match commitSettlement L digest env directory call m with
  | .done true m => (.confirmed, m)
  | .done false m => (.unproved, m)
  | .raised _ m => (.refused, m)
  | .crashed m => (.died, m)

/-- One commit after another; after a crash the next one is that of a new process. -/
def commitAll (env : Env) (directory : Path) :
    List Call → Machine Unit Unit → List (Call × Answer) × Machine Unit Unit
  | [], m => ([], m)
  | call :: calls, m =>
    let x := commitOn L digest env directory call m
    let y := commitAll env directory calls x.2
    ((call, x.1) :: y.1, y.2)

end

end Telepty.Mailbox.Settlement
