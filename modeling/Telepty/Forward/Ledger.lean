import Telepty.Infra.JsonRoundtrip
import Telepty.Infra.Process
import Telepty.Infra.Sha256
import Telepty.Principal.Proof

/-!
# The forward ledger

A directory of receipts, one file per key. A key is reserved by creating its file exclusively, with
a pending record, before the effect it stands for; the result replaces the record later, through a
temporary file and a rename. No file is ever removed, so that an uncertain record never turns into
permission to send again.

File modes, device and link numbers and the time stamps of a file are left out. What the reading
calls find is what is on the disk.
-/

namespace Telepty.Forward

open Infra Infra.Prog Mailbox Principal
open Interaction (utf16Length)

variable {σ μ : Type} (home : Path) (env : Env)

def maxRecords : Nat := 512

def maxPayload : Nat := 64 * 1024

def maxRecordBytes : Nat := 4096

/-- `hash(value)` -/
def hash (t : Text) : Text := Sha256.hex (Sha256.digest (encodeText t))

/-- `text(value, max)` -/
def plainText (limit : Nat) (value : Option Json) : Bool :=
  textWhere (fun t => t ≠ [] && utf16Length t ≤ limit && !t.any isControl) value

/-- `failure(code, status)`; the status of a code is `statusOf`. -/
def failure (code : Text) : Failure := ⟨code, []⟩

def storageUnavailable : Failure := failure "FORWARD_STORAGE_UNAVAILABLE"

def invalidRequest : Failure := failure "FORWARD_INVALID_REQUEST"

/-! ## Paths -/

def base : Path := joinPath home ".telepty"

def dir : Path := joinPath (base home) "forward-receipts"

/-- The file of a key. -/
def recordFile (key : Text) : Path := joinPath (dir home) (key ++ ".json")

/-- `recordPath(key)` -/
def recordPath (key : Text) : Except Failure Path :=
  if digestText key then .ok (recordFile home key) else .error invalidRequest

/-- One round of `prepare()`. -/
def prepareDir (p : Path) : Prog σ μ Unit := do
  (sys env (.mkdir p) >>= fun _ => pure ()).catching fun e =>
    if e.code = Errno.EEXIST.text then pure () else raise e
  match (← disk).lstat p with
  | some .dir => pure ()
  | some (.file _) => raise storageUnavailable
  | none => raise (failure Errno.ENOENT.text)

/-- `prepare()` -/
def prepare : Prog σ μ Unit := do
  prepareDir env (base home)
  prepareDir env (dir home)

/-! ## Reading -/

def recordStates : List Text := ["pending", "accepted", "failed", "outcome_unknown"]

def isNumber : Option Json → Bool
  | some (.num _) => true
  | _ => false

/-- The record in the bytes of a key's file, `none` where `read` refuses them. -/
def recordIn (key : Text) (bytes : Bytes) : Option Json :=
  if 1 ≤ bytes.length ∧ bytes.length ≤ maxRecordBytes ∧ encodeText (decodeText bytes) = bytes then
    (parseUnambiguousJSON (decodeText bytes)).filter fun r =>
      r.isObject && textOf (r.field "receipt_id") = some key &&
        ((r.field "fingerprint").map coerced).any digestText &&
        textWhere recordStates.contains (r.field "state") && isNumber (r.field "created_at")
  else none

/-- What is found under a key: nothing, a record, or what is refused. -/
def observe (fs : FS) (key : Text) : Except Failure (Option Json) :=
  match fs.lstat (recordFile home key) with
  | none => .ok none
  | some .dir => .error storageUnavailable
  | some (.file bytes) =>
    match recordIn key bytes with
    | some record => .ok (some record)
    | none => .error storageUnavailable

/-- `read(key)` -/
def read (key : Text) : Prog σ μ (Option Json) := do
  prepare home env
  let _ ← ofExcept (recordPath home key)
  ofExcept (observe home (← disk) key)

/-- `/^[a-f0-9]{64}\.json$/` -/
def isRecordName (name : Text) : Bool := digestText (name.take 64) && name.drop 64 = (".json" : Text)

/-- `names.map(name => read(name.slice(0, -5)))`; a name that was listed is there. -/
def readAll : List Text → Prog σ μ (List Json)
  | [] => pure []
  | name :: names => do
    match ← read home env (name.take 64) with
    | some record =>
      let rest ← readAll names
      pure (record :: rest)
    | none => raise (failure "TypeError")

/-- `all()` -/
def all : Prog σ μ (List Json) := do
  prepare home env
  match (← disk).readdir (dir home) with
  | .error e => raise (failure e.text)
  | .ok names =>
    if maxRecords < names.length then raise (failure "FORWARD_CAPACITY")
    else if names.all isRecordName then readAll home env names
    else raise storageUnavailable

/-! ## Writing -/

/-- A call that never comes back: the process can only be ended. -/
def hang : Prog σ μ Unit := fun m => .crashed m

/-- `fs.writeFileSync(fd, bytes)`: writes until everything is stored; a write that stores nothing
over and over never comes back. -/
def writeFileSync (p : Path) : Nat → Bytes → Prog σ μ Unit
  | 0, bytes => if bytes = [] then pure () else hang
  | n + 1, bytes =>
    if bytes = [] then pure ()
    else do
      let count ← sys env (.write p bytes)
      writeFileSync p n (bytes.drop count)

/-- `syncDir(dir)` -/
def syncDir (p : Path) : Prog σ μ Unit := do
  let _ ← sys env (.open .r p)
  (sys env (.fsync p) >>= fun _ => pure ()).finallyDo (sys env (.close p) >>= fun _ => pure ())

/-- `try { fs.unlinkSync(temporary) } catch (error) { if (error.code !== 'ENOENT') throw error }` -/
def unlinkQuiet (p : Path) : Prog σ μ Unit :=
  (sys env (.unlink p) >>= fun _ => pure ()).catching fun e =>
    if e.code = Errno.ENOENT.text then pure () else raise e

def temporaryFile (target : Path) (suffix : Text) : Path :=
  joinPath target.dropLast (target.getLastD [] ++ ('.' :: suffix ++ (".tmp" : Text)))

def fsyncAll : Prog σ μ Unit := do
  syncDir env (dir home)
  syncDir env (base home)
  syncDir env home

/-- The record's bytes in a file that is made for them. -/
def fill (p : Path) (bytes : Bytes) : Prog σ μ Unit := do
  writeFileSync env p bytes.length bytes
  let _ ← sys env (.fsync p)
  let _ ← sys env (.close p)

/-- A new file with these bytes; the file is closed before anything is cleaned up. -/
def create (p : Path) (bytes : Bytes) (cleanup : Prog σ μ Unit) : Prog σ μ Unit := do
  (sys env (.open .wx p) >>= fun _ => pure ()).catching fun e => do
    cleanup
    raise e
  (fill env p bytes).catching fun e => do
    let _ ← sys env (.close p)
    cleanup
    raise e

/-- The first write makes the record's own file. -/
def writeFirst (target : Path) (bytes : Bytes) : Prog σ μ Unit := do
  create env target bytes (pure ())
  fsyncAll home env

/-- A later write renames a new file over it. -/
def writeOver (target temporary : Path) (bytes : Bytes) : Prog σ μ Unit := do
  create env temporary bytes (unlinkQuiet env temporary)
  (do
    let _ ← sys env (.rename temporary target)
    fsyncAll home env : Prog σ μ Unit).finallyDo (unlinkQuiet env temporary)

/-- `write(record, first)` -/
def write (record : Json) (first : Bool) : Prog σ μ Unit := do
  prepare home env
  let bytes := encodeText record.stringify
  if maxRecordBytes < bytes.length then raise storageUnavailable
  else do
    let target ← ofExcept (recordPath home (record.textField "receipt_id"))
    let suffix ← random env
    if first then writeFirst home env target bytes
    else writeOver home env target (temporaryFile target suffix) bytes

/-- `{ ...record, ...members }` -/
def spread (record : Json) (members : List (Text × Json)) : Json :=
  members.foldl (fun r m => r.set m.1 m.2) record

/-- The record that `reserve` writes. -/
def pendingRecord (key fingerprint : Text) (createdAt : Nat) (metadata : List (Text × Json)) : Json :=
  spread (.obj [("receipt_id", .str key), ("fingerprint", .str fingerprint),
    ("created_at", .num createdAt), ("state", .str "pending")]) metadata

/-- What `reserve` answers. -/
structure Reserved where
  record : Json
  fresh : Bool

/-- `reserve(key, fingerprint, metadata)` -/
def reserve (key fingerprint : Text) (metadata : List (Text × Json)) : Prog σ μ Reserved := do
  match ← read home env key with
  | some existing =>
    if textOf (existing.field "fingerprint") = some fingerprint then pure ⟨existing, false⟩
    else raise (failure "IDEMPOTENCY_CONFLICT")
  | none =>
    if maxRecords ≤ (← all home env).length then raise (failure "FORWARD_CAPACITY")
    let record := pendingRecord key fingerprint (← now env) metadata
    write home env record true
    pure ⟨record, true⟩

/-- `record.state` -/
def recordState (record : Json) : Text := record.textField "state"

/-- `record.state`, where a pending record that no request is waiting on counts as unknown. -/
def shownState (active : List Text) (record : Json) : Text :=
  if recordState record = ("pending" : Text) ∧ record.textField "receipt_id" ∉ active then
    "outcome_unknown"
  else recordState record

def viewFields : List Text :=
  ["receipt_id", "fingerprint", "created_at", "direction", "peer", "session", "expected_epoch",
    "remote_status", "code", "remote_inject_id", "remote_queued", "remote_receipt"]

/-- `view(record)` -/
def view (active : List Text) (record : Json) : Json :=
  spread (.obj (viewFields.filterMap fun k => (record.field k).map fun v => (k, v)))
    [("state", .str (shownState active record)), ("verified_foreign_identity", .bool false)]

end Telepty.Forward
