import Telepty.Ledger.Index
import Telepty.Ledger.State

/-!
# Files of the store

The file helpers of the owner, the manifest, the segments and the generation numbers. Every change
of the disk goes through `Prog.sys`, one file operation at a time, in the order of the source.
-/

namespace Telepty.Ledger

open Infra Prog

/-- The errno of a read as the error it throws. -/
def ioResult {α : Type} : Except Errno α → Except Failure α
  | .ok a => .ok a
  | .error e => .error ⟨e.text, []⟩

/-! ## Writing -/

/-- Flushes a directory; on win32 an EPERM of the flush itself is passed over. -/
def fsyncDir (o : Options) (p : Path) : Owner Unit := do
  let _ ← sys o.env (.open .r p)
  finallyDo
    (catching (do let _ ← sys o.env (.fsync p)) fun e =>
      if o.win32 && e.code = "EPERM" then pure () else raise e)
    (catching (do let _ ← sys o.env (.close p)) fun _ => pure ())

/-- Opens, writes once and flushes. The count that the write returns is not looked at. -/
def writeFileDurable (o : Options) (file : Path) (buf : Bytes) (flag : FS.OpenFlag) :
    Owner Unit := do
  let _ ← sys o.env (.open flag file)
  finallyDo
    (do
      let _ ← sys o.env (.write file buf)
      let _ ← sys o.env (.fsync file))
    (do let _ ← sys o.env (.close file))

/-- A checkpoint member: an occupied name is refused. -/
def createFileDurable (o : Options) (file : Path) (buf : Bytes) : Owner Unit :=
  writeFileDurable o file buf .wx

/-- `${name}.${pid}.${Date.now()}.tmp` -/
def tmpName (name : Text) (pid ms : Nat) : Text :=
  name ++ '.' :: natText pid ++ '.' :: natText ms ++ ".tmp"

/-- Writes `dir/name` through a temporary file and a rename. -/
def writeAtomic (o : Options) (dir : Path) (name : Text) (buf : Bytes) : Owner Unit := do
  let s ← get
  let tmp := joinPath dir (tmpName name s.pid (← now o.env))
  writeFileDurable o tmp buf .w
  let _ ← sys o.env (.rename tmp (joinPath dir name))
  fsyncDir o dir

/-! ## Reading -/

def readJson (fs : FS) (file : Path) : Except Failure Json :=
  match fs.readFile file with
  | .error e => .error ⟨e.text, []⟩
  | .ok b =>
    match Json.parse (decodeText b) with
    | some j => .ok j
    | none => .error ⟨[], "SyntaxError"⟩

def listDir (fs : FS) (p : Path) : List Text :=
  match fs.readdir p with
  | .ok names => names
  | .error _ => []

/-- The non-empty lines of a file; the last one need not be terminated. -/
def linesOf (buf : Bytes) : List Text :=
  (((splitLines buf).1 ++ [(splitLines buf).2]).filter (· ≠ [])).map decodeText

def readLines (fs : FS) (file : Path) : Except Failure (List Text) :=
  (ioResult (fs.readFile file)).map linesOf

/-- Lines as the owner writes them: each value on a line, nothing for no value. -/
def linesBytes (values : List Json) : Bytes :=
  values.flatMap fun v => encodeText (v.stringify ++ ['\n'])

/-- A step for each element of a list; where one throws, the memory stays as it was left. -/
def stepAll {α : Type} (step : α → State → Except Failure State) : List α → Owner Unit
  | [] => pure ()
  | x :: xs => do
    let s ← get
    match step x s with
    | .ok s => do
      modify fun _ => s
      stepAll step xs
    | .error e => raise e

/-- A line of a receipts file. -/
def receiptJson (txn : Text) (r : Receipt) : Json :=
  .obj [("txn", .str txn), ("pos", r.pos.toJson), ("kind", .str r.kind),
    ("id", r.id.elim .null .str)]

/-! ## Posting -/

def postState (store : StoreState) (reason detail : Text) : Owner Unit := do
  modify fun s => { s with state := store, reason := reason }
  let s ← get
  post (.state store reason detail s.epoch)

/-! ## The manifest -/

namespace Manifest

def nullable : Option Nat → Json
  | none => .null
  | some n => .num n

def natOf : Json → Option Nat
  | .num (.ofNat n) => some n
  | _ => none

def legacyJson (l : Legacy) : Json :=
  .obj [("sha256", .str l.sha256), ("bytes", .num l.bytes), ("generation", .num l.generation)]

def coldJson (c : ColdRef) : Json :=
  .obj [("n", .num c.n), ("records", .num c.records), ("bytes", .num c.bytes)]

def toJson (m : Manifest) : Json :=
  .obj [("format", .num m.format), ("epoch", .num m.epoch), ("seq_committed", .num m.seqCommitted),
    ("published", .bool m.published), ("token", .str m.token), ("checkpoint", m.checkpoint.toJson),
    ("hot", .obj [("n", nullable m.hotN)]),
    ("receipts", .obj [("n", nullable m.receiptsN), ("prev", nullable m.receiptsPrev)]),
    ("cold", .arr (m.cold.map coldJson)), ("facts", .obj [("n", nullable m.factsN)]),
    ("legacy", m.legacy.elim .null legacyJson),
    ("last_checkpoint", .obj [("n", nullable m.lastCheckpointN)]),
    ("clean_close", .bool m.cleanClose)]

/-- `j.a && j.a.b` as a number -/
def nested (j : Json) (a b : Text) : Option Nat :=
  ((j.field a).bind fun x => x.field b).bind natOf

def legacyOf : Json → Option Legacy
  | .null => none
  | l => some ⟨l.textField "sha256", l.natField "bytes", l.natField "generation"⟩

def isTrue : Option Json → Bool
  | some (.bool true) => true
  | _ => false

def isFalse : Option Json → Bool
  | some (.bool false) => true
  | _ => false

def ofJson (j : Json) : Manifest where
  format := j.natField "format"
  epoch := j.natField "epoch"
  seqCommitted := j.natField "seq_committed"
  published := isTrue (j.field "published")
  token := j.textField "token"
  checkpoint := (j.field "checkpoint").elim .zero Pos.ofJson
  hotN := nested j "hot" "n"
  receiptsN := nested j "receipts" "n"
  receiptsPrev := nested j "receipts" "prev"
  cold := (((j.field "cold").bind Json.asList).getD []).map fun c =>
    ⟨c.natField "n", c.natField "records", c.natField "bytes"⟩
  factsN := nested j "facts" "n"
  legacy := (j.field "legacy").bind legacyOf
  lastCheckpointN := nested j "last_checkpoint" "n"
  cleanClose := isTrue (j.field "clean_close")

theorem ofJson_toJson (m : Manifest) : ofJson m.toJson = m := by
  obtain ⟨format, epoch, seqCommitted, published, token, checkpoint, hotN, receiptsN, receiptsPrev,
    cold, factsN, legacy, lastCheckpointN, cleanClose⟩ := m
  have hn : ∀ o : Option Nat, natOf (nullable o) = o := by
    rintro (_ | n) <;> rfl
  have hc : (cold.map coldJson).map (fun c =>
      (⟨c.natField "n", c.natField "records", c.natField "bytes"⟩ : ColdRef)) = cold := by
    rw [List.map_map]
    exact (List.map_congr_left fun c _ => rfl).trans (List.map_id _)
  have hl : legacyOf (legacy.elim .null legacyJson) = legacy := by cases legacy <;> rfl
  have hb : ∀ b : Bool, isTrue (some (.bool b)) = b := by rintro (_ | _) <;> rfl
  have h1 : ofJson (toJson ⟨format, epoch, seqCommitted, published, token, checkpoint, hotN,
      receiptsN, receiptsPrev, cold, factsN, legacy, lastCheckpointN, cleanClose⟩) =
      ⟨format, epoch, seqCommitted, isTrue (some (.bool published)), token, checkpoint,
        natOf (nullable hotN), natOf (nullable receiptsN), natOf (nullable receiptsPrev),
        (cold.map coldJson).map (fun c => ⟨c.natField "n", c.natField "records",
          c.natField "bytes"⟩), natOf (nullable factsN),
        legacyOf (legacy.elim .null legacyJson), natOf (nullable lastCheckpointN),
        isTrue (some (.bool cleanClose))⟩ := rfl
  rw [h1, hn, hn, hn, hn, hn, hc, hl, hb, hb]

/-- The bytes of MANIFEST.json; the layout of the text is compact. -/
def bytes (m : Manifest) : Bytes := encodeText (m.toJson.stringify ++ ['\n'])

end Manifest

/-- The manifest that the memory describes. -/
def manifestOf (s : State) (fallbackToken : Text) (cleanClose : Bool)
    (lastCheckpointN : Option Nat) : Manifest where
  format := storeFormatVersion
  epoch := s.epoch
  seqCommitted := s.seqCommitted
  published := true
  token := s.manifest.elim fallbackToken Manifest.token
  checkpoint := s.checkpointPos
  hotN := some s.checkpointN
  receiptsN := some s.checkpointN
  receiptsPrev := s.receiptCkpts.dropLast.getLast?
  cold := s.cold.map fun c => ⟨c.n, c.records, c.bytes⟩
  factsN := some s.checkpointN
  legacy := s.legacy
  -- `...(S.manifest || {})` keeps the last checkpoint unless `extra` names a new one
  lastCheckpointN := lastCheckpointN.or (s.manifest.bind Manifest.lastCheckpointN)
  cleanClose := cleanClose

def writeManifest (o : Options) (cleanClose : Bool) (lastCheckpointN : Option Nat) :
    Owner Unit := do
  let s ← get
  let m := manifestOf s (← random o.env) cleanClose lastCheckpointN
  writeAtomic o storeDir "MANIFEST.json" m.bytes
  modify fun s => { s with manifest := some m }

/-! ## Generation numbers -/

def unsafeGeneration {α : Type} : Except Failure α := .error ⟨"GENERATION_UNSAFE", []⟩

/-- The leading decimal run of a name, up to a dot or the end. -/
def generationOfName (name : Text) : Option Nat :=
  match (Json.spanDigits name).2 with
  | [] | '.' :: _ => parseNat (Json.spanDigits name).1
  | _ => none

def generationOf (value : Option Nat) : Except Failure Nat :=
  match value with
  | none => .ok 0
  | some n => if n ≤ maxSafeInteger then .ok n else unsafeGeneration

def highOfNames : List Text → Except Failure Nat
  | [] => .ok 0
  | name :: names => do
    let high ← highOfNames names
    match generationOfName name with
    | none => .ok high
    | some n => if n ≤ maxSafeInteger then .ok (max n high) else unsafeGeneration

/-- The highest generation that a name of a tier directory carries. -/
def occupiedHighWater (fs : FS) (dir : Path) : Except Failure Nat :=
  match fs.readdir dir with
  | .error .ENOENT => .ok 0
  | .error _ => .error ⟨"GENERATION_SCAN_FAILED", []⟩
  | .ok names => highOfNames names

def maxGeneration : List (Option Nat) → Except Failure Nat
  | [] => .ok 0
  | v :: vs => do
    let n ← generationOf v
    let m ← maxGeneration vs
    return max n m

/-- The high-water marks of the occupied generations, hot and cold. -/
def recoverGenerations (fs : FS) (m : Manifest) : Except Failure (Nat × Nat) := do
  let hot ← occupiedHighWater fs hotDir
  let facts ← occupiedHighWater fs factsDir
  let named ← maxGeneration [m.hotN, m.receiptsN, m.receiptsPrev, m.factsN, m.lastCheckpointN]
  let cold ← occupiedHighWater fs coldDir
  let listed ← maxGeneration (m.cold.map fun c => some c.n)
  return (max (max hot facts) named, max cold listed)

/-- `reserveGeneration('hot')` -/
def reserveHot (s : State) : Except Failure (Nat × State) :=
  let n := max s.allocHot s.checkpointN + 1
  if n ≤ maxSafeInteger then .ok (n, { s with allocHot := n }) else unsafeGeneration

/-- `reserveGeneration('cold')` -/
def reserveCold (s : State) : Except Failure (Nat × State) :=
  let published := s.cold.foldl (fun m c => max m c.n) 0
  let n := max s.allocCold published + 1
  if n ≤ maxSafeInteger then .ok (n, { s with allocCold := n }) else unsafeGeneration

/-! ## Segments -/

/-- `/^(\d+)-(\d+)\.jsonl$/` -/
def parseSegmentName (name : Text) : Option (Nat × Nat) :=
  match (Json.spanDigits name).2 with
  | '-' :: rest =>
    if (Json.spanDigits rest).2 = ".jsonl" then
      (parseNat (Json.spanDigits name).1).bind fun e =>
        (parseNat (Json.spanDigits rest).1).map fun n => (e, n)
    else none
  | _ => none

structure SegmentRef where
  name : Text
  epoch : Nat
  n : Nat

/-- Not after, by epoch and then by number. -/
def SegmentRef.le (a b : SegmentRef) : Prop :=
  a.epoch < b.epoch ∨ a.epoch = b.epoch ∧ a.n ≤ b.n

instance : DecidableRel SegmentRef.le := fun _ _ => inferInstanceAs (Decidable (_ ∨ _))

/-- The segment files of the store, in log order. -/
def segmentFiles (fs : FS) : List SegmentRef :=
  ((listDir fs segmentsDir).filterMap fun name =>
    (parseSegmentName name).map fun p => ⟨name, p.1, p.2⟩).insertionSort SegmentRef.le

def nextSegmentN (s : State) : Nat :=
  (s.segments.filter fun x => x.epoch = s.epoch).foldl (fun m x => max m x.n) 0 + 1

def openSegment (o : Options) (epoch n : Nat) : Owner Unit := do
  let name := segmentName epoch n
  let _ ← sys o.env (.open .a (segmentFile name))
  modify fun s => { s with
    seg := some ⟨name, 0, epoch, n⟩
    segments := s.segments ++ [⟨name, epoch, n, false, 0⟩] }
  fsyncDir o segmentsDir

/-- The first segment of a name, marked closed with its length. -/
def markClosed (name : Text) (bytes : Nat) : List Segment → List Segment
  | [] => []
  | x :: rest =>
    if x.name = name then { x with closed := true, bytes := bytes } :: rest
    else x :: markClosed name bytes rest

def closeSegment (o : Options) : Owner Unit := do
  let s ← get
  match s.seg with
  | none => pure ()
  | some seg => do
    catching (do let _ ← sys o.env (.close (segmentFile seg.name))) fun _ => pure ()
    modify fun s => { s with segments := markClosed seg.name seg.bytes s.segments, seg := none }

end Telepty.Ledger
