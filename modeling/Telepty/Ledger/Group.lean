import Telepty.Ledger.Checkpoint

/-!
# Submissions and the open group

A submission is judged against the committed memory under the overlay of the open group. What
changes something becomes a frame of the group; `flushGroup` writes the group with its commit frame
in one write, merges it and acknowledges its members.
-/

namespace Telepty.Ledger

open Infra Prog

/-! ## The context of the open group -/

def newGroup (s : State) : Group where
  frames := []
  bytes := 0
  members := []
  noops := []
  overlay := .empty
  facts := s.facts
  actions := []
  seqFrom := none
  seqTo := 0
  factsAdded := 0

/-- `groupCtx(g)`: the overlay over the hot records. -/
def groupCtx (hot : HotSet) : FrameCtx Group where
  get g id := (g.overlay.get? id).or (hot.get? id)
  set g id r := { g with overlay := g.overlay.set id r }
  facts g := g.facts
  pushFact g f := { g with facts := g.facts ++ [f] }
  setAction g action pending := { g with actions := g.actions ++ [(action, pending)] }

/-! ## Judging a submission -/

/-- A `submit` message. -/
structure Submit where
  txn : Text
  kind : Text
  delta : Json

inductive Verdict where
  | nack (reason code : Text)
  /-- nothing would change; `pendingBasis` when the open group is the reason -/
  | noop (result : Text) (pendingBasis : Bool)
  | frame (f : Frame)

def supersedeEntry (id : Text) (at_ : Json) : Json :=
  .obj [("kind", .str "tracking_superseded"), ("trigger", .str "superseded_by_new_tracked_inject"),
    ("superseded_by", .str id), ("at", at_)]

/-- The tracked records of a session that a new inject supersedes: the hot ones, then those that
only the open group holds. -/
def supersededBy (s : State) (g : Group) (sid id : Text) : List Text :=
  let C := groupCtx s.hot
  let tracked (r : Json) : Bool := r.textField "tracking_state" = "tracked"
  let hot := (idsOf s.hot.bySession sid).filter fun hid =>
    (C.get g hid).any tracked && hid ≠ id
  let own := (g.overlay.entries.filter fun e =>
    sessionOf e.2 = sid && tracked e.2 && e.1 ≠ id && e.1 ∉ hot).map Prod.fst
  hot ++ own

def overCapacity (o : Options) (s : State) (record : Json) : Bool :=
  o.hotMaxRecords < s.hot.records.size + 1 || o.hotMaxBytes < s.hot.bytes + encodedBytes record

/-- `{ ...observation }` as it comes: an object whose kind is a text. -/
def isObservation (j : Option Json) : Bool :=
  match j with
  | some obs => obs.isObject && ((obs.field "kind").bind Json.asText).isSome
  | none => false

/-- The verdict on a submission in an available store whose transaction has no receipt. A cold
lookup that throws is answered by the `catch` of the source. -/
def judge (o : Options) (fs : FS) (ms : Nat) (s : State) (g : Group) (msg : Submit) :
    Except Failure Verdict := do
  let C := groupCtx s.hot
  let delta := msg.delta
  let frame (body : FrameBody) : Verdict := .frame ⟨s.epoch, s.seqNext, msg.txn, body⟩
  let at_ : Pos := ⟨s.epoch, s.seqNext⟩
  let id := delta.textField "id"
  if msg.kind = "begin" then
    let sid := delta.textField "sid"
    let record := (delta.field "record").getD .null
    if id = [] ∨ sid = [] ∨ record.isObject = false ∨ record.textField "inject_id" ≠ id ∨
        record.textField "session_id" ≠ sid then
      return .nack "invalid" "begin_shape"
    else if (C.get g id).isSome then return .noop "already_exists" (g.overlay.has id)
    else
      match ← coldLookup o fs s id with
      | some _ => return .noop "already_exists" false
      | none =>
        if overCapacity o s record then return .nack "hot_capacity" []
        else
          let entryAt := match orNull (delta.field "at") with
            | .null => .str (o.isoText ms)
            | at_ => at_
          return frame (.begin id sid record
            ((supersededBy s g sid id).map fun hid => (hid, supersedeEntry id entryAt)))
  else if msg.kind = "obs" then
    let observation := (delta.field "observation").getD .null
    if id = [] ∨ isObservation (delta.field "observation") = false then
      return .nack "invalid" "obs_shape"
    else
      match C.get g id with
      | none =>
        match ← coldLookup o fs s id with
        | some _ => return .nack "record_cold" []
        | none =>
          if coldOfflineHas o s id then return .nack "cold_offline" []
          else return .nack "record_missing" []
      | some current =>
        let last := orNull ((overlay current g.facts).field "last_observation")
        if last.isObject ∧ observationIdentity last = observationIdentity observation then
          return .noop "observation_duplicate" (g.overlay.has id || 0 < g.factsAdded)
        else return frame (.obs id observation)
  else if msg.kind = "state" then
    let observation := (delta.field "observation").getD .null
    let ts := delta.textField "tracking_state"
    if id = [] ∨ observation.isObject = false ∨ ts ∉ terminalStates then
      return .nack "invalid" "state_shape"
    else
      match C.get g id with
      | none =>
        match ← coldLookup o fs s id with
        | some _ => return .nack "record_cold" []
        | none => return .nack "record_missing" []
      | some current =>
        let state := current.textField "tracking_state"
        if state = ts then return .noop "already_terminal" (g.overlay.has id)
        else if state ≠ "tracked" then return .nack "record_terminal" state
        else return frame (.state id ts observation)
  else if msg.kind = "fact" then
    let scope := delta.textField "scope"
    let observation := (delta.field "observation").getD .null
    let sid := delta.textField "sid"
    if (scope ≠ "global" ∧ scope ≠ "session") ∨ observation.isObject = false ∨
        (scope = "session" ∧ sid = []) then
      return .nack "invalid" "fact_shape"
    else return frame (.fact scope (if scope = "session" then some sid else none) observation)
  else if msg.kind = "reheat" then
    if id = [] then return .nack "invalid" "reheat_shape"
    else if (C.get g id).isSome then return .noop "already_hot" (g.overlay.has id)
    else
      match ← coldLookup o fs s id with
      | none =>
        if coldOfflineHas o s id then return .nack "cold_offline" []
        else return .nack "record_missing" []
      | some cold =>
        if cold.textField "tracking_state" = "tracked" ∧
            Manifest.isTrue (delta.field "job_reserved") = false then
          return .nack "tracking_capacity_exhausted" "reheat_requires_job_reservation"
        else
          let record := foldedAt C g cold at_
          if overCapacity o s record then return .nack "hot_capacity" []
          else return frame (.reheat id record)
  else if msg.kind = "iact" then
    let action := (delta.field "action").getD .null
    if action.isObject = false ∨ action.textField "action_id" = [] then
      return .nack "invalid" "iact_shape"
    else return frame (.iact action (Frame.truthyObject (delta.field "pending")))
  else return .nack "invalid" "unknown_kind"

/-! ## Writing the group -/

/-- `flushGroup` writes these bytes in one call. -/
def groupJson (epoch : Nat) (g : Group) : List Json :=
  g.frames.map Frame.toJson ++ [(Commit.mk epoch (g.seqFrom.getD 0) g.seqTo g.frames.length).toJson]

/-- `if (!S.seg) openSegment(S.epoch, nextSegmentN())` -/
def ensureSegment (o : Options) : Owner Unit := do
  let s ← get
  match s.seg with
  | none => openSegment o s.epoch (nextSegmentN s)
  | some _ => pure ()

/-- `tryWrite(bytes)` without its `catch`. -/
def tryWrite (o : Options) (bytes : Bytes) : Owner Unit := do
  ensureSegment o
  let s ← get
  match s.seg with
  | none => pure ()
  | some seg => do
    -- the count that the write returns is not looked at
    let _ ← sys o.env (.write (segmentFile seg.name) bytes)
    let _ ← sys o.env (.fsync (segmentFile seg.name))
    modify fun s => { s with seg := some { seg with bytes := seg.bytes + bytes.length } }

/-- `closeSegment(); openSegment(S.epoch, nextSegmentN())` -/
def rollSegment (o : Options) : Owner Unit := do
  closeSegment o
  let s ← get
  openSegment o s.epoch (nextSegmentN s)

/-- The write of a group, tried once more in a new segment; the error when both fail. -/
def writeGroup (o : Options) (bytes : Bytes) : Owner (Option Failure) :=
  catching
    (do
      tryWrite o bytes
      return none)
    fun _ =>
      catching
        (do
          rollSegment o
          tryWrite o bytes
          return none)
        fun e => pure (some e)

/-- The committed memory after the group is durable. -/
def merged (g : Group) (s : State) : State :=
  let s := g.actions.foldl (fun s a => s.setAction a.1 a.2)
    { s with
      hot := s.hot.setAll g.overlay.entries
      facts := g.facts
      seqCommitted := g.seqTo
      framesSinceCheckpoint := s.framesSinceCheckpoint + g.frames.length }
  g.members.foldl (fun s m =>
    { s with
      appliedPos := s.appliedPos ++ [posKey m.pos]
      txnHash := (s.txnHash.set m.txn m.hash).set (posKey m.pos) m.hash
      receipts := s.receipts.set m.txn ⟨m.pos, m.kind, m.id, .open⟩ }) s

def memberAck (m : Member) : Ack :=
  ⟨m.txn, some m.pos.seq, m.pos.epoch, "committed", "written", false, m.effects⟩

def noopAck (epoch : Nat) (basis : Text) (n : PendingNoop) : Ack :=
  ⟨n.txn, none, epoch, n.result, basis, false, []⟩

def postAll : List Post → Owner Unit
  | [] => pure ()
  | p :: ps => do
    post p
    postAll ps

/-- `if (S.receipts.size > RECEIPTS_MAX * 2) trimReceipts()` -/
def trimIfMany (s : State) : State :=
  if receiptsMax * 2 < s.receipts.size then trimReceipts s else s

/-- The checkpoint that may be due; its failure does not touch the group. -/
def compactIfDue (o : Options) : Owner Unit := do
  let s ← get
  if o.compactFrames ≤ s.framesSinceCheckpoint then
    catching (do let _ ← checkpointBody o "threshold") fun e => post (.progress "compact" e.code)

def segmentFull (s : State) : Bool := s.seg.any fun seg => segmentRollBytes ≤ seg.bytes

/-- The roll of the segment that may be due; after a failure the next write opens one. -/
def rollIfFull (o : Options) : Owner Unit := do
  let s ← get
  if segmentFull s then catching (rollSegment o) fun _ => pure ()

/-- The group's bytes are on the disk: merge it and acknowledge its members. -/
def commitGroup (o : Options) (g : Group) : Owner Unit := do
  modify (merged g)
  let s ← get
  postAll (g.members.map fun m => .ack (memberAck m))
  postAll (g.noops.map fun n => .ack (noopAck s.epoch "pending" n))
  modify trimIfMany
  compactIfDue o
  rollIfFull o

/-- `classifyIoError(e)` -/
def writeError (e : Failure) : Text :=
  let code : Text := if e.code = [] then "unknown" else e.code
  ("write_error:" : Text) ++ code

/-- Neither write is known to have succeeded: the group is neither merged nor acknowledged. -/
def abandonGroup (g : Group) (e : Failure) : Owner Unit := do
  modify fun s => { s with possiblyDurable := some ⟨g.members.map Member.txn⟩ }
  postState .unavailableWrite (writeError e) []
  post (.indeterminate (g.members.map Member.txn ++ g.noops.map PendingNoop.txn) (writeError e))

def flushGroup (o : Options) : Owner Unit := do
  let s ← get
  modify fun s => { s with group := none }
  match s.group with
  | none => pure ()
  | some g =>
    if g.frames = [] then postAll (g.noops.map fun n => .ack (noopAck s.epoch "committed" n))
    else do
      match ← writeGroup o (encodeFrames o.digests (groupJson s.epoch g)) with
      | none => commitGroup o g
      | some e => abandonGroup g e

/-! ## Submitting -/

/-- A verdict that changes nothing, answered now or with the group. -/
def noopVerdict (g : Group) (txn result : Text) (pendingBasis : Bool) : Owner Unit := do
  if pendingBasis then
    modify fun s => { s with group := some { g with noops := g.noops ++ [⟨txn, result⟩] } }
  else do
    let s ← get
    post (.ack ⟨txn, none, s.epoch, result, "committed", false, []⟩)
    if g.frames = [] ∧ g.noops = [] then modify fun s => { s with group := none }

/-- The group with one more frame. -/
def addFrame (msg : Submit) (f : Frame) (size : Nat) (hash : Text) (g : Group)
    (effects : List Effect) : Group :=
  { g with
    frames := g.frames ++ [f]
    bytes := g.bytes + size
    members := g.members ++ [⟨msg.txn, msg.kind, f.id?, f.pos, effects, size, hash⟩]
    seqFrom := g.seqFrom.or (some f.seq)
    seqTo := f.seq
    factsAdded := if msg.kind = "fact" then g.factsAdded + 1 else g.factsAdded }

/-- What the state of the store answers before a submission is looked at. -/
def refusal (s : State) : Option (Text × Text) :=
  match s.state with
  | .recovering => some ("recovering", [])
  | .unavailableRead => some ("unavailable_read", s.reason)
  | .unavailableWrite => some ("unavailable_write", [])
  | .available => if s.closing then some ("shutting_down", s.reason) else none
  | _ => some (if s.closing then "shutting_down" else "unavailable", s.reason)

def groupFull (o : Options) (size : Nat) (g : Group) : Bool :=
  o.groupBytes < size || o.groupFrames ≤ g.frames.length || o.groupBytes ≤ g.bytes

/-- One pass of `submit`; `true` when a large frame had to let the open group go first, after which
the source submits the message again. -/
def submitOnce (o : Options) (msg : Submit) : Owner Bool := do
  let s ← get
  let nack (reason code : Text) : Owner Bool := do
    post (.nack msg.txn reason code)
    return false
  if msg.txn = [] ∨ msg.kind = [] ∨ isTruthy (some msg.delta) = false then
    nack "invalid" "malformed_submit"
  else
    match refusal s with
    | some (reason, code) => nack reason code
    | none =>
      match s.receipts.get? msg.txn with
      | some r => do
        post (.ack ⟨msg.txn, some r.pos.seq, r.pos.epoch, "committed", "committed", true, []⟩)
        return false
      | none => do
        let g := s.group.getD (newGroup s)
        modify fun s => { s with group := some g }
        match judge o (← disk) (← now o.env) s g msg with
        | .error e => nack "invalid" e.message
        | .ok (.nack reason code) => nack reason code
        | .ok (.noop result pendingBasis) => do
          noopVerdict g msg.txn result pendingBasis
          return false
        | .ok (.frame f) => do
          let size := (encodeFrame o.digests f.toJson).length
          if frameCap msg.kind < size then nack "frame_too_large" []
          else if o.groupBytes < size ∧ g.frames ≠ [] then do
            flushGroup o
            return true
          else
            match applyFrame (groupCtx s.hot) f g with
            | .error e => nack (if e = "already_exists" then "invalid" else e) e
            | .ok (g, effects) => do
              let g := addFrame msg f size (o.digests.frameHash f.toJson.stringify) g effects
              modify fun s => { s with seqNext := s.seqNext + 1, group := some g }
              if groupFull o size g then do
                flushGroup o
                return false
              else return false

/-- `submit(msg)`: after the group was let go, the second pass finds no group in its way. -/
def submit (o : Options) (msg : Submit) : Owner Unit := do
  if ← submitOnce o msg then do
    let _ ← submitOnce o msg

/-- `if (S.group && S.group.frames.length) flushGroup()` -/
def flushFrames (o : Options) : Owner Unit := do
  let s ← get
  match s.group with
  | none => pure ()
  | some g => if g.frames = [] then pure () else flushGroup o

/-- `checkpoint(reason)` -/
def checkpoint (o : Options) (reason : Text) : Owner Json := do
  flushFrames o
  checkpointBody o reason

end Telepty.Ledger
