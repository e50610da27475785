import Telepty.Vt.Pump

/-!
# The screen of a session

The class `SessionScreen`: its producers (output, geometry, drops), the replacement of a generation,
its end, and the callbacks of the emulator. A screen takes one event after another.

A disposed screen has no generation, so the tests for it alone are left out where one for the
generation stands beside them. `past` is a history variable: the generations that were replaced, as
they were left.
-/

namespace Telepty.Vt

open Infra

/-! ## The screen -/

/-- The geometry of a stream that no output has come from. -/
structure PendingGeometry where
  streamId : Units
  cols : Option Nat
  rows : Option Nat
  source : GeometrySource
  atUnits : Option Nat
  ambiguous : Bool

structure Screen where
  sessionId : Units
  generationCounter : Nat
  disposed : Bool
  gen : Option Generation
  restoredRecord : Bool
  pendingGeometry : Option PendingGeometry
  world : World
  past : List Generation

/-- The options of a generation. A source that is no name of one is `unverified`. -/
structure Options where
  cols : Dimension
  rows : Dimension
  geometrySource : GeometrySource
  streamId : Raw
  localSource : Bool
  restoredRecord : Bool

def Screen.modify (s : Screen) (f : Live → Live) : Screen :=
  match s.gen with
  | none => s
  | some g => { s with gen := some (f ⟨g, s.world⟩).gen, world := (f ⟨g, s.world⟩).world }

/-! ## Generations -/

/-- What a generation that is replaced is left as. -/
def Generation.tornDown (g : Generation) : Generation :=
  { g with queue := [], queuedUnits := 0, writing := false }.disposeTerm

/-- `_teardownGeneration()` -/
def teardownGeneration (s : Screen) : Screen :=
  match s.gen with
  | none => s
  | some g => { s with pendingGeometry := none, gen := none, past := s.past ++ [g.tornDown] }

/-- A generation at its creation. -/
def freshGeneration (sessionId : Units) (index : Nat) (restoredRecord : Bool) (cause : Cause)
    (options : Options) : Generation :=
  let cols := sanitizeDimension options.cols
  let rows := sanitizeDimension options.rows
  let geometryValid := cols.isSome && rows.isSome && options.geometrySource.valid
  let fromOrigin := cause = .streamOrigin ∧ options.localSource ∧ geometryValid
  let quality : Quality := {
    cause
    localSource := options.localSource
    streamId := (sanitizeStreamId options.streamId).or <|
      if options.localSource then
        some (codeUnits "local-" ++ sessionId ++ codeUnits "-" ++ codeUnits (natText index))
      else none
    cols
    rows
    geometrySource := if geometryValid then options.geometrySource else .unverified
    geometryKnownBeforeFirstOutput := geometryValid
    completeness :=
      if cause = .restored then .partialSinceRestore
      else if fromOrigin then .complete
      else .partialSinceAttach
    continuity := if options.localSource then .verified else .unverified
    continuityDegraded := false
    originDetermined :=
      if cause = .restored then false
      else if fromOrigin then true
      else !cause.originEligible
    degradedReasons := []
    droppedUnits := 0
    streamPos := if options.localSource then some 0 else none
    overlapTail := []
    overlapTailStart := if options.localSource then some 0 else none }
  let quality :=
    if restoredRecord then
      { quality.degradeCompleteness .partialSinceRestore with originDetermined := true }
    else quality
  let quality :=
    if !geometryValid && (!options.cols.isAbsent || !options.rows.isAbsent) then
      Quality.degrade
        { quality with geometrySource := if cols = none ∨ rows = none then .invalid else .unverified }
        .geometryInvalid
    else quality
  { toQuality := quality
    index
    observedUnits := 0
    appliedUnits := 0
    queuedUnits := 0
    queue := []
    writing := false
    unitsSinceCellAudit := 0
    stopped := false
    term := false
    accepted := []
    writes := []
    failed := false }

/-- `newGeneration(cause, options)`. A cause that is none of the list is `attached_mid_stream`. -/
def newGeneration (e : Emulator) (cause : Cause) (options : Options) (s : Screen) : Screen :=
  if s.disposed then s
  else
    let s := teardownGeneration s
    let restoredRecord := options.restoredRecord || s.restoredRecord
    let index := s.generationCounter + 1
    let g := freshGeneration s.sessionId index restoredRecord cause options
    { s with generationCounter := index, restoredRecord, gen := some g }.modify (ensureTerminal e)

/-- `new SessionScreen(options)` -/
def create (e : Emulator) (sessionId : Units) (cause : Cause) (options : Options) : Screen :=
  newGeneration e cause options {
    sessionId
    generationCounter := 0
    disposed := false
    gen := none
    restoredRecord := options.restoredRecord
    pendingGeometry := none
    world := ⟨0, []⟩
    past := [] }

/-- `dispose()` -/
def dispose (s : Screen) : Screen :=
  if s.disposed then s else teardownGeneration { s with disposed := true }

/-! ## Output -/

/-- `stream_id` and `stream_offset` of an output. -/
structure Meta where
  streamId : Raw
  streamOffset : Raw

/-- `_takePendingGeometry(streamId, streamOffset)`: the screen without it, and the geometry,
`some none` for one that cannot be used. -/
def takePendingGeometry (streamId : Units) (streamOffset : Option Nat) (s : Screen) :
    Screen × Option (Option PendingGeometry) :=
  match s.pendingGeometry with
  | none => (s, none)
  | some pending =>
    if pending.streamId ≠ streamId then (s, none)
    else
      let s := { s with pendingGeometry := none }
      if pending.ambiguous ∨ streamOffset = none ∨ pending.atUnits ≠ streamOffset then (s, some none)
      else (s, some (some pending))

/-- The options of the generation that the first output of another stream makes. -/
def streamOptions (streamId : Units) : Option (Option PendingGeometry) → Options
  | some (some pending) =>
    ⟨pending.cols.elim .other .number, pending.rows.elim .other .number, pending.source,
      .text streamId, false, false⟩
  | _ => ⟨.absent, .absent, .unverified, .text streamId, false, false⟩

/-- The first output of another stream replaces the generation. -/
def rotateStream (e : Emulator) (streamId : Units) (streamOffset : Option Nat) (s : Screen) :
    Screen :=
  let (s, pending) := takePendingGeometry streamId streamOffset s
  let s := newGeneration e .streamChanged (streamOptions streamId pending) s
  match pending with
  | some none => s.modify fun l => l.qualify fun q => q.degrade .geometryPendingUnusable
  | _ => s

/-- What a positioned output says about the stream, and what of it is new. -/
def Quality.placeOutput (q : Quality) (data : Units) (streamId : Option Units)
    (streamOffset : Option Nat) : Quality × Units :=
  match streamId, streamOffset with
  | some _, some offset =>
    match q.streamPos with
    | none => ({ q with streamPos := some offset }, data)
    | some pos =>
      if pos < offset then
        ({ q.noteLoss (offset - pos) .gap with
            streamPos := some offset
            overlapTail := []
            overlapTailStart := some offset }, data)
      else if offset < pos then
        let overlap := pos - offset
        let span := min overlap data.length
        let verified : Option Bool := q.overlapTailStart.bind fun start =>
          if start ≤ offset ∧ offset + span ≤ start + q.overlapTail.length then
            some (((q.overlapTail.drop (offset - start)).take span) = data.take span)
          else none
        let q :=
          match verified with
          | some true => q
          | some false =>
            ((q.degrade .overlapConflict).degradeContinuity .conflicting).degradeCompleteness
              .partialAfterLoss
          | none => (q.degrade .overlapUnverifiable).degradeContinuity .unverified
        (q, if data.length ≤ overlap then [] else data.drop overlap)
      else (q, data)
  | _, _ =>
    let q := q.degradeContinuity .unverified
    ({ q with streamPos := q.streamPos.map (· + data.length) }, data)

/-- An output of the stream that the generation observes: what is known after it, and what of it is
new. -/
def Quality.admitOutput (q : Quality) (data : Units) (streamId : Option Units)
    (streamOffset : Option Nat) : Quality × Units :=
  if q.localSource then
    ({ q with streamPos := some (q.streamPos.getD 0 + data.length) }.determineOrigin (some 0)
      streamId, data)
  else
    let (q, payload) := q.placeOutput data streamId streamOffset
    if payload = [] then (q, [])
    else
      let q :=
        match streamOffset with
        | none => q
        | some offset =>
          let q := { q with streamPos := some (offset + data.length) }
          if streamId.isSome then q.verifyContinuity else q
      (q.determineOrigin streamOffset streamId, payload)

/-- An output of the stream that the generation observes. -/
def acceptOutput (e : Emulator) (data : Units) (streamId : Option Units)
    (streamOffset : Option Nat) (l : Live) : Live :=
  let l := l.qualify fun q => if q.streamId = none then { q with streamId := streamId } else q
  let payload := (l.gen.toQuality.admitOutput data streamId streamOffset).2
  let l := l.qualify fun q => (q.admitOutput data streamId streamOffset).1
  if payload = [] then l
  else
    enqueue e (.output payload payload.length 0) (l.qualify fun q => q.retainOverlap payload)

/-- `noteOutput(data, meta)`, with `none` for data that is no string. -/
def noteOutput (e : Emulator) (data : Option Units) (m : Meta) (s : Screen) : Screen :=
  match s.gen, data with
  | none, _ => s
  | some _, none =>
    s.modify fun l => l.qualify fun q =>
      (q.degrade .invalidOutputPayload).degradeContinuity .invalid
  | some g, some data =>
    if data = [] then s
    else if !m.streamId.isAbsent && (sanitizeStreamId m.streamId).isNone then
      s.modify fun l => l.qualify fun q => (q.degrade .invalidStreamId).degradeContinuity .invalid
    else
      let streamId := sanitizeStreamId m.streamId
      let streamOffset := m.streamOffset.safeOffset
      let malformed := !m.streamOffset.isAbsent && streamOffset.isNone
      let refuse (s : Screen) : Screen :=
        if malformed then
          s.modify fun l => l.qualify fun q =>
            (q.degrade .invalidStreamOffset).degradeContinuity .invalid
        else s
      let s := refuse s
      match streamId with
      | some id =>
        if g.streamId.isSome ∧ g.streamId ≠ some id ∧ ¬g.localSource then
          (refuse (rotateStream e id streamOffset s)).modify (acceptOutput e data streamId streamOffset)
        else s.modify (acceptOutput e data streamId streamOffset)
      | none => s.modify (acceptOutput e data streamId streamOffset)

/-! ## Geometry -/

structure Geometry where
  cols : Dimension
  rows : Dimension
  streamId : Raw
  atUnits : Raw
  /-- a source that is no valid one is `bridge_reported` -/
  source : GeometrySource

/-- `_parkPendingGeometry(streamId, geo)` -/
def parkPendingGeometry (streamId : Units) (geo : Geometry) (s : Screen) : Screen :=
  let cols := sanitizeDimension geo.cols
  let rows := sanitizeDimension geo.rows
  let source := if geo.source.valid then geo.source else .bridgeReported
  let atUnits := geo.atUnits.safeOffset
  let usable := cols.isSome && rows.isSome && atUnits.isSome
  let stated : PendingGeometry := { streamId, cols, rows, source, atUnits, ambiguous := !usable }
  match s.pendingGeometry with
  | none => { s with pendingGeometry := some stated }
  | some prior =>
    if prior.streamId = streamId then
      if !usable || prior.cols ≠ cols || prior.rows ≠ rows || prior.atUnits ≠ atUnits then
        { s with pendingGeometry := some { prior with ambiguous := true } }
      else s
    else { s with pendingGeometry := some { stated with ambiguous := true } }

/-- A geometry that is stated for the generation: its operation is queued. -/
def acceptGeometry (e : Emulator) (cols rows : Nat) (streamId : Option Units) (stated : Raw)
    (source : GeometrySource) (l : Live) : Live :=
  let l := l.qualify fun q => if q.streamId = none then { q with streamId := streamId } else q
  let atUnits := stated.safeOffset
  if !stated.isAbsent && atUnits.isNone then
    l.qualify fun q =>
      { q.degrade .geometryAtUnitsInvalid with geometrySource := .unverified }
  else
    let selfStamped := atUnits.isNone && l.gen.localSource
    let unattested := atUnits.isNone && !selfStamped
    let anchor := l.gen.streamPos.getD (atUnits.getD 0)
    let l := l.qualify fun q =>
      { q with streamPos := if atUnits.isSome then some anchor else q.streamPos }
    enqueue e (.resize {
      cols, rows, streamId
      atUnits := if unattested then none else some (atUnits.getD anchor)
      anchor, selfStamped, unattested, source }) l

/-- `noteGeometry(geo)` -/
def noteGeometry (e : Emulator) (geo : Geometry) (s : Screen) : Screen :=
  match s.gen with
  | none => s
  | some g =>
    let streamId := sanitizeStreamId geo.streamId
    if !geo.streamId.isAbsent && streamId.isNone then
      s.modify fun l => l.qualify fun q =>
        { q.degrade .invalidStreamId with geometrySource := .unverified }
    else
      match streamId with
      | some id =>
        if g.streamId.isSome ∧ g.streamId ≠ some id ∧ ¬g.localSource then
          parkPendingGeometry id geo s
        else applyGeometry s streamId
      | none => applyGeometry s streamId
where
  /-- The statement is about this generation. -/
  applyGeometry (s : Screen) (streamId : Option Units) : Screen :=
    match sanitizeDimension geo.cols, sanitizeDimension geo.rows with
    | some cols, some rows =>
      s.modify (acceptGeometry e cols rows streamId geo.atUnits
        (if geo.source.valid then geo.source else .bridgeReported))
    | _, _ =>
      s.modify fun l => l.qualify fun q =>
        Quality.degrade { q with geometrySource := .invalid } .geometryInvalid

/-! ## Drops -/

structure DropStatement where
  fromUnits : Raw
  toUnits : Raw
  streamId : Raw

/-- `noteDropped(drop)` -/
def noteDropped (e : Emulator) (drop : DropStatement) (s : Screen) : Screen :=
  let streamId := sanitizeStreamId drop.streamId
  if !drop.streamId.isAbsent && streamId.isNone then
    s.modify fun l => l.qualify fun q => (q.degrade .invalidStreamId).degradeContinuity .invalid
  else
    match drop.fromUnits.safeOffset, drop.toUnits.safeOffset with
    | some fromUnits, some toUnits =>
      if toUnits < fromUnits then invalid s
      else s.modify (enqueue e (.dropped ⟨streamId, fromUnits, toUnits⟩))
    | _, _ => invalid s
where
  /-- Something was lost, nobody knows how much. -/
  invalid (s : Screen) : Screen :=
    s.modify fun l => l.qualify fun q =>
      (q.degrade .dropBoundsInvalid).degradeCompleteness .partialAfterLoss

/-! ## Callbacks and runs -/

/-- `onWritten`, made in the generation `cb.token` -/
def onWritten (e : Emulator) (cb : Callback) (s : Screen) : Screen :=
  match s.gen with
  | none => s
  | some g => if g.index ≠ cb.token then s else s.modify (afterWrite e cb)

inductive Event where
  | output (data : Option Units) (m : Meta)
  | geometry (geo : Geometry)
  | drop (drop : DropStatement)
  | replace (cause : Cause) (options : Options)
  | dispose
  /-- the emulator calls a callback it holds -/
  | written (cb : Callback)

def step (e : Emulator) (s : Screen) : Event → Screen
  | .output data m => noteOutput e data m s
  | .geometry geo => noteGeometry e geo s
  | .drop drop => noteDropped e drop s
  | .replace cause options => newGeneration e cause options s
  | .dispose => dispose s
  | .written cb =>
    if cb ∈ s.world.callbacks then
      onWritten e cb { s with world :=
        { s.world with callbacks := s.world.callbacks.erase cb } }
    else s

/-- The screen after a run. -/
def run (e : Emulator) (s : Screen) (events : List Event) : Screen := events.foldl (step e) s

end Telepty.Vt
