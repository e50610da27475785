import Telepty.Ledger.Files

/-!
# Recovery

An open of a published store loads the checkpoint that the manifest names, replays the segments on
top of it, opens the first segment of the next epoch, copies the last group into it and publishes
the manifest of the new epoch.
-/

namespace Telepty.Ledger

open Infra Prog

/-! ## The checkpoint -/

def syntaxError : Failure := ⟨[], "SyntaxError"⟩

def typeError : Failure := ⟨[], "TypeError"⟩

/-- A line of the hot file: a record, an action or a pending interaction. -/
def hotLine (text : Text) (s : State) : Except Failure State :=
  match Json.parse text with
  | none => .error syntaxError
  | some obj =>
    let t := obj.textField "t"
    if t = "rec" then
      match obj.field "record" with
      | none => .error typeError
      | some record => .ok { s with hot := s.hot.set (record.textField "inject_id") record }
    else if t = "action" then
      match obj.field "action" with
      | none => .error typeError
      | some action => .ok { s with actions := s.actions.set (action.textField "action_id") action }
    else if t = "pending" then
      match obj.field "pending" with
      | none => .error typeError
      | some p => .ok { s with pending := s.pending.set (p.textField "inject_id") p }
    else .ok s

/-- A line of the receipts file of checkpoint `n`. -/
def receiptLine (n : Nat) (text : Text) (s : State) : Except Failure State :=
  match Json.parse text with
  | none => .error syntaxError
  | some r =>
    let receipt : Receipt :=
      ⟨(r.field "pos").elim .zero Pos.ofJson, r.textField "kind", (r.field "id").bind Json.asText,
        .number n⟩
    .ok { s with receipts := s.receipts.set (r.textField "txn") receipt }

def factLine (text : Text) (s : State) : Except Failure State :=
  match Json.parse text with
  | none => .error syntaxError
  | some j => .ok { s with facts := s.facts ++ [Fact.ofJson j] }

def Fact.le (a b : Fact) : Prop := comparePos a.pos b.pos ≤ 0

instance : DecidableRel Fact.le := fun _ _ => inferInstanceAs (Decidable (_ ≤ _))

/-- A generation number that is there and not zero. -/
def truthy : Option Nat → Option Nat
  | some 0 => none
  | n => n

/-- The receipts file of one checkpoint, when it exists. -/
def loadReceipts (n : Nat) : Owner Unit := do
  let fs ← disk
  if (fs.lstat (receiptsFile n)).isSome then do
    let lines ← ofExcept (readLines fs (receiptsFile n))
    stepAll (receiptLine n) lines
    modify fun s => { s with receiptCkpts := s.receiptCkpts ++ [n] }

/-- The cold generations, the newest first: resident as long as their indexes fit the budget. -/
def loadCold (fs : FS) : Nat → List ColdRef → Except Failure (List ColdMeta)
  | _, [] => .ok []
  | budget, c :: rest => do
    let idIdx ← ioResult (fs.readFile (coldIdIndexFile c.n))
    let sidIdx ← ioResult (fs.readFile (coldSidIndexFile c.n))
    let bytes := idIdx.length + sidIdx.length
    let offline := budget < bytes
    let older ← loadCold fs (if offline then budget else budget - bytes) rest
    return ⟨c.n, coldFile c.n, idIdx, sidIdx,
      if c.records = 0 then idIdx.length / indexEntryBytes else c.records, c.bytes, offline⟩ :: older

def ColdRef.le (a b : ColdRef) : Prop := a.n ≤ b.n

instance : DecidableRel ColdRef.le := fun _ _ => inferInstanceAs (Decidable (_ ≤ _))

/-- The hot file, when it exists. -/
def loadHot (n : Nat) : Owner Unit := do
  let fs ← disk
  if (fs.lstat (hotFile n)).isSome then do
    let lines ← ofExcept (readLines fs (hotFile n))
    stepAll hotLine lines

/-- The facts file, when it exists. -/
def loadFacts (n : Nat) : Owner Unit := do
  let fs ← disk
  if (fs.lstat (factsFile n)).isSome then do
    let lines ← ofExcept (readLines fs (factsFile n))
    stepAll factLine lines

def loadCheckpoint (o : Options) (manifest : Manifest) : Owner Unit := do
  loadHot ((truthy manifest.hotN).getD 1)
  (truthy manifest.receiptsPrev).elim (pure ()) loadReceipts
  (truthy manifest.receiptsN).elim (pure ()) loadReceipts
  modify fun s => { s with checkpointN := (truthy manifest.hotN).getD 1 }
  loadFacts ((truthy manifest.factsN).getD 1)
  modify fun s => { s with facts := s.facts.insertionSort Fact.le }
  let fs ← disk
  let cold ← ofExcept (loadCold fs o.coldIndexMaxBytes
    (manifest.cold.insertionSort ColdRef.le).reverse)
  modify fun s => { s with cold := cold.reverse }

/-! ## Replay -/

/-- The context of replay: the committed memory itself. -/
def replayCtx : FrameCtx State where
  get s id := s.hot.get? id
  set s id r := { s with hot := s.hot.set id r }
  facts s := s.facts
  pushFact s f := { s with facts := s.facts ++ [f] }
  setAction := State.setAction

/-- Remembers a frame's position and transaction with its hash. -/
def noteApplied (f : Frame) (hash : Text) (s : State) : State :=
  let byTxn := if f.txn = [] then s.txnHash else s.txnHash.set f.txn hash
  { s with appliedPos := s.appliedPos ++ [posKey f.pos], txnHash := byTxn.set (posKey f.pos) hash }

/-- One frame of a committed group. -/
def replayFrame (manifest : Manifest) (fr : DecodedFrame) (s : State) : Except Failure State :=
  let f := Frame.ofJson fr.obj
  let p := f.pos
  if posKey p ∈ s.appliedPos ∨ (f.txn ≠ [] ∧ s.txnHash.has f.txn = true) then
    match (s.txnHash.get? f.txn).or (s.txnHash.get? (posKey p)) with
    | some prior =>
      if prior ≠ fr.hash then .error ⟨"DUP_CONFLICT", "duplicate_frame_conflict"⟩ else .ok s
    | none => .ok s
  else if comparePos p s.checkpointPos ≤ 0 then .ok (noteApplied f fr.hash s)
  else
    match applyFrame replayCtx f s with
    | .error e => .error ⟨"REPLAY_FAILED", e⟩
    | .ok (s, _) =>
      let s := noteApplied f fr.hash s
      .ok { s with
        receipts := if f.txn = [] then s.receipts
          else s.receipts.set f.txn ⟨p, f.kind, f.id?, .replay⟩
        framesSinceCheckpoint := s.framesSinceCheckpoint + 1
        seqCommitted := max s.seqCommitted (if p.epoch = manifest.epoch then p.seq else 0) }

/-- A frame that fails its hash in front of a commit frame is media corruption, not a torn end. -/
def corrupted (o : Options) (buf : Bytes) (tail : Option Tail) : Bool :=
  match tail with
  | none => false
  | some t =>
    t.reason ≠ .noNewline &&
      match splitLines (buf.drop t.offset) with
      | ([], _) => false
      | (line :: _, _) =>
        (decodeFrames o.digests (buf.drop (t.offset + line.length + 1))).frames.any fun f =>
          isCommit f.obj

/-- The transactions of frames that no commit frame closed. -/
def noteUnapplied (segment : Text) (g : Grouped) (tail : Option Tail) (s : State) : State :=
  match g.open_.head?.map DecodedFrame.offset |>.or (tail.map Tail.offset) with
  | none => s
  | some firstBad =>
    let txns := (g.open_.map fun f => f.obj.textField "txn").filter (· ≠ [])
    { s with unappliedTxns := s.unappliedTxns.setAll (txns.map fun t => (t, segment, firstBad)) }

/-- One segment; its last group's bytes, when it has a group. -/
def replaySegment (o : Options) (manifest : Manifest) (f : SegmentRef) : Owner (Option Bytes) := do
  let fs ← disk
  let buf ← ofExcept (ioResult (fs.readFile (segmentFile f.name)))
  let d := decodeFrames o.digests buf
  if corrupted o buf d.tail then raise ⟨"CORRUPT", "corrupt_committed_frame"⟩
  else do
    let g := groupFrames d.frames
    stepAll (replayFrame manifest) (g.groups.flatMap FrameGroup.frames)
    modify fun s => noteUnapplied f.name g d.tail
      { s with segments := s.segments ++ [⟨f.name, f.epoch, f.n, true, buf.length⟩] }
    return g.groups.getLast?.map FrameGroup.bytes

/-- The segments in order; the bytes of the last group of all. -/
def replaySegments (o : Options) (manifest : Manifest) :
    List SegmentRef → Option Bytes → Owner (Option Bytes)
  | [], last => pure last
  | f :: files, last => do
    let bytes ← replaySegment o manifest f
    replaySegments o manifest files (bytes.or last)

/-! ## Recovery -/

/-- Appends the last group to the segment of the new epoch, whatever that segment already holds. -/
def copyLast (o : Options) (name : Text) : Option Bytes → Owner Unit
  | none => pure ()
  | some bytes => do
    let _ ← sys o.env (.write (segmentFile name) bytes)
    let _ ← sys o.env (.fsync (segmentFile name))
    modify fun s => { s with
      seg := s.seg.map fun seg => { seg with bytes := seg.bytes + bytes.length } }

def recover (o : Options) (manifest : Manifest) : Owner Unit := do
  modify fun s => { s with
    manifest := some manifest, legacy := manifest.legacy, checkpointPos := manifest.checkpoint }
  loadCheckpoint o manifest
  let fs ← disk
  let alloc ← ofExcept (recoverGenerations fs manifest)
  modify fun s => { s with allocHot := alloc.1, allocCold := alloc.2 }
  let last ← replaySegments o manifest (segmentFiles fs) none
  modify fun s => { s with epoch := manifest.epoch + 1, seqNext := 1, seqCommitted := 0 }
  let _ ← sys o.env (.mkdirp segmentsDir)
  openSegment o (manifest.epoch + 1) 1
  copyLast o (segmentName (manifest.epoch + 1) 1) last
  writeManifest o false none

end Telepty.Ledger
