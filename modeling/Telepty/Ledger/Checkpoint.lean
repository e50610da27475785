import Telepty.Ledger.Files

/-!
# The cold tier and the checkpoint

A checkpoint moves the hot records that are finished with into a new cold generation, writes the
remaining hot records, the receipts and the facts as new files and publishes a manifest that names
them. `checkpointBody` is `checkpoint` after the open group has been flushed.
-/

namespace Telepty.Ledger

open Infra Prog

/-! ## Looking up a cold record -/

/-- The object at an index entry, `none` when it does not parse; a short file is read as zeros. -/
def readColdRecord (fs : FS) (c : ColdMeta) (e : IndexEntry) : Except Failure (Option Json) :=
  match fs.readFile c.file with
  | .error err => .error ⟨err.text, []⟩
  | .ok b =>
    let buf := slice b e.offset e.len
    .ok (Json.parse (decodeText (buf ++ List.replicate (e.len - buf.length) 0)))

/-- The first of some entries that holds the record of an id. -/
def lookupEntries (fs : FS) (c : ColdMeta) (id : Text) :
    List IndexEntry → Except Failure (Option Json)
  | [] => .ok none
  | e :: es => do
    match ← readColdRecord fs c e with
    | some record =>
      if record.textField "inject_id" = id then return some record
      else lookupEntries fs c id es
    | none => lookupEntries fs c id es

/-- The generations from the newest to the oldest, past the offline ones. -/
def lookupGenerations (fs : FS) (key : Bytes) (id : Text) :
    List ColdMeta → Except Failure (Option Json)
  | [] => .ok none
  | c :: older =>
    if c.offline then lookupGenerations fs key id older
    else do
      match ← lookupEntries fs c id (findIndexEntries c.idIdx key) with
      | some record => return some record
      | none => lookupGenerations fs key id older

def coldLookup (o : Options) (fs : FS) (s : State) (id : Text) : Except Failure (Option Json) :=
  lookupGenerations fs (o.digests.keyPrefix id) id s.cold.reverse

def coldOfflineHas (o : Options) (s : State) (id : Text) : Bool :=
  s.cold.any fun c => c.offline && (findIndexEntry c.idIdx (o.digests.keyPrefix id)).isSome

/-- The records of a session in one generation. -/
def sessionEntries (fs : FS) (c : ColdMeta) (sid : Text) :
    List IndexEntry → Except Failure (List Json)
  | [] => .ok []
  | e :: es => do
    let record ← readColdRecord fs c e
    let rest ← sessionEntries fs c sid es
    match record with
    | some r => if sessionOf r = sid then return r :: rest else return rest
    | none => return rest

/-- `coldIdsForSession(sid)`: the records, oldest generation first. -/
def coldRecordsOf (o : Options) (fs : FS) (sid : Text) : List ColdMeta → Except Failure (List Json)
  | [] => .ok []
  | c :: rest =>
    if c.offline then coldRecordsOf o fs sid rest
    else do
      let here ← sessionEntries fs c sid (findIndexEntries c.sidIdx (o.digests.keyPrefix sid))
      let more ← coldRecordsOf o fs sid rest
      return here ++ more

/-! ## What is demoted -/

def isTruthy : Option Json → Bool
  | none | some .null | some (.bool false) | some (.num 0) | some (.str []) => false
  | _ => true

def demotionEligible (s : State) (record : Json) : Bool :=
  let ts := record.textField "tracking_state"
  let sid := sessionOf record
  if ts ∈ terminalStates then true
  else if ts = "tracked" ∧ sid ∉ s.liveSids then
    !(s.actions.values.any fun a => a.textField "sid" = sid && !isTruthy (a.field "terminal")) &&
      !(s.pending.values.any fun p => p.textField "sid" = sid && p.textField "state" = "held")
  else false

def demoted (s : State) : List Json := s.hot.records.values.filter (demotionEligible s)

/-! ## The files of a generation -/

/-- The longest string the engine makes. -/
def maxStringLength : Nat := 536870888

/-- `s.length`, in UTF-16 units -/
def utf16Length (t : Text) : Nat := (t.map fun c => if c.toNat < 0x10000 then 1 else 2).sum

/-- `JSON.stringify(record) + '\n'`; a text that is too long is a RangeError. -/
def recordLine (record : Json) : Except Failure Bytes :=
  if maxStringLength < utf16Length record.stringify then .error ⟨[], "Invalid string length"⟩
  else .ok (encodeText (record.stringify ++ ['\n']))

structure ColdFiles where
  lines : Bytes
  ids : List IndexEntry
  sids : List IndexEntry

/-- The lines of the demoted records from an offset on, with their entries in both indexes. -/
def coldFilesFrom (D : Digests) (n : Nat) : Nat → List Json → Except Failure ColdFiles
  | _, [] => .ok ⟨[], [], []⟩
  | offset, record :: rest => do
    let line ← recordLine record
    let tracked := record.textField "tracking_state" = "tracked"
    let more ← coldFilesFrom D n (offset + line.length) rest
    return {
      lines := line ++ more.lines
      ids := ⟨D.keyPrefix (record.textField "inject_id"), n, offset, line.length - 1,
        if tracked then 1 else 0⟩ :: more.ids
      sids := ⟨D.keyPrefix (sessionOf record), n, offset, line.length - 1, 0⟩ :: more.sids }

/-- Takes the number that `reserveGeneration` gives, for good. -/
def reserve (take : State → Except Failure (Nat × State)) : Owner Nat := do
  let s ← get
  let taken ← ofExcept (take s)
  modify fun _ => taken.2
  return taken.1

/-- Writes a cold generation and its indexes. -/
def writeColdGeneration (o : Options) (records : List Json) : Owner ColdMeta := do
  let n ← reserve reserveCold
  let files ← ofExcept (coldFilesFrom o.digests n 0 records)
  let idIdx ← ofExcept (buildIndex files.ids)
  let sidIdx ← ofExcept (buildIndex files.sids)
  createFileDurable o (coldFile n) files.lines
  createFileDurable o (coldIdIndexFile n) idIdx
  createFileDurable o (coldSidIndexFile n) sidIdx
  fsyncDir o coldDir
  return ⟨n, coldFile n, idIdx, sidIdx, records.length, files.lines.length, false⟩

/-- The cold generation of the demoted records, when there are any. -/
def writeCold (o : Options) (records : List Json) : Owner (Option ColdMeta) :=
  if records = [] then pure none
  else do
    let c ← writeColdGeneration o records
    return some c

def recordLineJson (record : Json) : Json := .obj [("t", .str "rec"), ("record", record)]

def actionLineJson (action : Json) : Json := .obj [("t", .str "action"), ("action", action)]

def pendingLineJson (pending : Json) : Json := .obj [("t", .str "pending"), ("pending", pending)]

/-- The values of the hot file: the records that stay, the actions, the pending interactions. -/
def hotValues (s : State) : List Json :=
  (s.hot.records.values.filter fun r => !demotionEligible s r).map recordLineJson
    ++ s.actions.values.map actionLineJson ++ s.pending.values.map pendingLineJson

def ReceiptCkpt.unsaved : ReceiptCkpt → Bool
  | .open | .replay => true
  | .number _ => false

/-- The receipts that no checkpoint holds yet. -/
def unsavedReceipts (s : State) : List (Text × Receipt) :=
  s.receipts.entries.filter fun e => e.2.ckpt.unsaved

/-- `r.ckpt = n` for the receipts that were written. -/
def markSaved (n : Nat) (s : State) : State :=
  { s with receipts := s.receipts.mapVal fun r =>
      if r.ckpt.unsaved then { r with ckpt := .number n } else r }

/-- Keeps the receipts of the last two checkpoints and the unsaved ones. -/
def trimReceipts (s : State) : State :=
  { s with receipts := s.receipts.filter fun e =>
      match e.2.ckpt with
      | .open | .replay => true
      | .number n => n ∈ s.receiptCkpts.drop (s.receiptCkpts.length - 2) }

def factsIndexEntries (D : Digests) (n : Nat) (facts : List Fact) : List IndexEntry :=
  facts.zipIdx.map fun (f, i) =>
    ⟨D.keyPrefix (if f.scope = "session" then templateText (f.sid.map .str) else "*global*"), n, i,
      0, if f.scope = "global" then 1 else 0⟩

/-! ## The checkpoint -/

/-- The memory after the new files are written and before the manifest names them. -/
def released (n : Nat) (demote : List Json) (cold : Option ColdMeta) (s : State) : State :=
  let ckpts := s.receiptCkpts ++ [n]
  let s := { s with
    cold := s.cold ++ cold.toList
    hot := s.hot.removeAll (demote.map fun r => r.textField "inject_id")
    receiptCkpts := ckpts.drop (ckpts.length - 2) }
  let s := trimReceipts s
  { s with
    checkpointN := n
    checkpointPos := ⟨s.epoch, s.seqCommitted⟩
    framesSinceCheckpoint := 0
    appliedPos := []
    txnHash := s.txnHash.filter fun e => ':' ∉ e.1 }

/-- The files of checkpoint `n`: hot records, receipts, facts and the index of the facts. -/
def writeCheckpointFiles (o : Options) (n : Nat) : Owner Unit := do
  let s ← get
  createFileDurable o (hotFile n) (linesBytes (hotValues s))
  modify (markSaved n)
  createFileDurable o (receiptsFile n)
    (linesBytes ((unsavedReceipts s).map fun e => receiptJson e.1 e.2))
  createFileDurable o (factsFile n) (linesBytes (s.facts.map Fact.toJson))
  let idx ← ofExcept (buildIndex (factsIndexEntries o.digests n s.facts))
  createFileDurable o (factsIndexFile n) idx
  fsyncDir o hotDir
  fsyncDir o factsDir

def postDemoted (demote : List Json) (n : Nat) : Owner Unit :=
  if demote = [] then pure ()
  else post (.demoted (demote.map fun r => r.textField "inject_id") n)

/-- `checkpoint` once no group is open. -/
def checkpointBody (o : Options) (reason : Text) : Owner Json := do
  let n ← reserve reserveHot
  let _ ← sys o.env (.mkdirp hotDir)
  let _ ← sys o.env (.mkdirp coldDir)
  let _ ← sys o.env (.mkdirp factsDir)
  let s ← get
  let cold ← writeCold o (demoted s)
  writeCheckpointFiles o n
  modify (released n (demoted s) cold)
  writeManifest o false (some n)
  postDemoted (demoted s) n
  post (.progress "compact" reason)
  return .obj [("n", .num n), ("demoted", .num (demoted s).length)]

end Telepty.Ledger
