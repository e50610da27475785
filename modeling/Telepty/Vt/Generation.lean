import Telepty.Infra.Utf16

/-!
# One generation of a session's screen

`session-screen.js` keeps a terminal emulator beside the output of a session. Everything between two
replacements of the emulator is a generation: what is known about the stream it observes
(`Quality`), and the queue of operations in front of the emulator (`Flow`).

The emulator is a parameter. It is called many times, so it numbers the calls, and says of each
whether it throws. The promises of readers that wait for the queue are left out; no function reads
them.

`accepted`, `writes` and `failed` are history variables: the outputs that were queued, the strings
that were passed to `write`, and whether it threw at one of them.
-/

namespace Telepty.Vt

open Infra

/-! ## Limits -/

def maxDimension : Nat := 1000

def queueMaxUnits : Nat := 1048576

def queueMaxOps : Nat := 4096

def maxWriteChunkUnits : Nat := 65536

def cellAuditIntervalUnits : Nat := 262144

def maxGridUnits : Nat := 2097152

def maxStreamIdUnits : Nat := 256

def overlapWindowUnits : Nat := 65536

/-- `Number.MAX_SAFE_INTEGER` -/
def maxSafeInteger : Nat := 9007199254740991

/-! ## What a message says -/

/-- A field of a message. -/
inductive Raw where
  /-- `undefined` or `null` -/
  | absent
  /-- an integer that is not negative -/
  | number (n : Nat)
  | text (t : Units)
  | other

/-- `isSafeOffset(value)`, with the offset. -/
def Raw.safeOffset : Raw → Option Nat
  | .number n => if n ≤ maxSafeInteger then some n else none
  | _ => none

/-- `sanitizeStreamId(value)` -/
def sanitizeStreamId : Raw → Option Units
  | .text t => if t = [] ∨ maxStreamIdUnits < t.length then none else some t
  | _ => none

def Raw.isAbsent : Raw → Bool
  | .absent => true
  | _ => false

/-- `cols` or `rows`, as `Number` has it. -/
inductive Dimension where
  /-- `undefined` -/
  | absent
  | number (n : Nat)
  /-- not a number, or no integer from 0 on -/
  | other

def sanitizeDimension : Dimension → Option Nat
  | .number n => if n < 1 ∨ maxDimension < n then none else some n
  | _ => none

def Dimension.isAbsent : Dimension → Bool
  | .absent => true
  | _ => false

/-! ## What is known about a generation -/

inductive Completeness where
  | complete
  | partialSinceAttach
  | partialSinceRestore
  | partialAfterLoss
  deriving DecidableEq

/-- `COMPLETENESS_RANK` -/
def Completeness.rank : Completeness → Nat
  | complete => 0
  | partialSinceAttach => 1
  | partialSinceRestore => 2
  | partialAfterLoss => 3

inductive Continuity where
  | verified
  | unverified
  | conflicting
  | invalid
  deriving DecidableEq

/-- `CONTINUITY_RANK` -/
def Continuity.rank : Continuity → Nat
  | verified => 0
  | unverified => 1
  | conflicting => 2
  | invalid => 3

/-- `GENERATION_CAUSES` -/
inductive Cause where
  | streamOrigin
  | attachedMidStream
  | streamChanged
  | ownerReplaced
  | recordReplaced
  | restored
  deriving DecidableEq

/-- `ORIGIN_ELIGIBLE_CAUSES.includes(cause)` -/
def Cause.originEligible : Cause → Bool
  | streamOrigin | attachedMidStream | streamChanged => true
  | _ => false

inductive GeometrySource where
  | localPty
  | bridgeReported
  | unverified
  | invalid
  deriving DecidableEq

/-- `VALID_GEOMETRY_SOURCES.includes(source)` -/
def GeometrySource.valid : GeometrySource → Bool
  | localPty | bridgeReported => true
  | _ => false

/-- Why a frame is degraded. -/
inductive Reason where
  | invalidOutputPayload
  | invalidStreamId
  | invalidStreamOffset
  | gap
  | overlapConflict
  | overlapUnverifiable
  | geometryInvalid
  | geometryPendingUnusable
  | geometryAtUnitsInvalid
  | geometryAtUnitsUnattested
  | geometryStreamMismatch
  | geometryBoundaryMismatch
  | dropBoundsInvalid
  | explicitDrop
  | generationStopped
  | queueOverflow
  | queueOverflowOp
  | vtLibraryInvalid
  | vtLibraryUnavailable
  | vtConstructFailed
  | vtWriteFailed
  | vtResizeFailed
  | cellAuditFailed
  | cellGrowthBoundExceeded
  deriving DecidableEq

/-- What is known about the stream that a generation observes. -/
structure Quality where
  cause : Cause
  localSource : Bool
  streamId : Option Units
  cols : Option Nat
  rows : Option Nat
  geometrySource : GeometrySource
  geometryKnownBeforeFirstOutput : Bool
  completeness : Completeness
  continuity : Continuity
  continuityDegraded : Bool
  originDetermined : Bool
  degradedReasons : List Reason
  droppedUnits : Nat
  streamPos : Option Nat
  overlapTail : Units
  overlapTailStart : Option Nat

namespace Quality

variable (q : Quality)

/-- `degradedReasons.add(reason)` -/
def degrade (reason : Reason) : Quality :=
  { q with degradedReasons :=
      if reason ∈ q.degradedReasons then q.degradedReasons else q.degradedReasons ++ [reason] }

def degradeCompleteness (value : Completeness) : Quality :=
  if q.completeness.rank < value.rank then { q with completeness := value } else q

def degradeContinuity (value : Continuity) : Quality :=
  { q with
    continuityDegraded := true
    continuity := if q.continuity.rank < value.rank then value else q.continuity }

def verifyContinuity : Quality :=
  if q.continuityDegraded then q else { q with continuity := .verified }

/-- `_noteLoss(units, reason)` -/
def noteLoss (units : Nat) (reason : Reason) : Quality :=
  let q :=
    if units ≤ maxSafeInteger ∧ 0 < units then
      { q with droppedUnits := min (q.droppedUnits + units) maxSafeInteger }
    else q
  (q.degrade reason).degradeCompleteness .partialAfterLoss

/-- `_determineOrigin(streamOffset, streamId)` -/
def determineOrigin (streamOffset : Option Nat) (streamId : Option Units) : Quality :=
  if q.originDetermined then q
  else
    let q := { q with originDetermined := true }
    if q.completeness = .partialSinceAttach ∧ q.cause.originEligible ∧ streamOffset = some 0 ∧
        q.geometryKnownBeforeFirstOutput ∧ q.geometrySource.valid ∧
        (q.streamId = none ∨ streamId = none ∨ q.streamId = streamId) ∧ q.degradedReasons = [] then
      { q with completeness := .complete }
    else q

/-- `_retainOverlap(gen, payload)` -/
def retainOverlap (payload : Units) : Quality :=
  if q.localSource ∨ payload = [] then q
  else
    let start := q.overlapTailStart.getD (q.streamPos.elim 0 (· - payload.length))
    let tail := q.overlapTail ++ payload
    if overlapWindowUnits < tail.length then
      let excess := tail.length - overlapWindowUnits
      { q with overlapTail := tail.drop excess, overlapTailStart := some (start + excess) }
    else { q with overlapTail := tail, overlapTailStart := some start }

end Quality

/-! ## The operations and the queue -/

structure Resize where
  cols : Nat
  rows : Nat
  streamId : Option Units
  atUnits : Option Nat
  anchor : Nat
  selfStamped : Bool
  unattested : Bool
  source : GeometrySource

structure Drop where
  streamId : Option Units
  fromUnits : Nat
  toUnits : Nat

inductive Op where
  | output (data : Units) (units watermark : Nat)
  | resize (op : Resize)
  | dropped (op : Drop)

structure Flow where
  index : Nat
  /-- units accepted for application -/
  observedUnits : Nat
  /-- units written and acknowledged -/
  appliedUnits : Nat
  queuedUnits : Nat
  queue : List Op
  writing : Bool
  unitsSinceCellAudit : Nat
  stopped : Bool
  /-- there is a terminal -/
  term : Bool
  accepted : List Units
  writes : List Units
  failed : Bool

structure Generation extends Quality, Flow

/-- Only what is known changes. -/
def Generation.qualify (g : Generation) (f : Quality → Quality) : Generation :=
  { g with toQuality := f g.toQuality }

/-! ## The emulator -/

/-- What becomes of a construction. -/
inductive Built where
  | terminal
  /-- the library has no terminal -/
  | libraryInvalid
  | libraryUnavailable
  /-- the constructor throws -/
  | failed

/-- The emulator, by the number of the call. -/
structure Emulator where
  construct : Nat → Built
  /-- `write` returns, and calls back later -/
  writes : Nat → Bool
  /-- `resize` returns -/
  resizes : Nat → Bool
  /-- the units on the grid, `none` when reading them throws -/
  gridUnits : Nat → Option Nat

/-- A callback that was handed to `write` and was not called yet. -/
structure Callback where
  /-- the generation it was made in -/
  token : Nat
  watermark : Nat
  /-- the length of the chunk -/
  units : Nat
  deriving DecidableEq

/-- The emulator's side: how often it was called, and the callbacks it holds. -/
structure World where
  calls : Nat
  callbacks : List Callback

def World.called (w : World) : World := { w with calls := w.calls + 1 }

/-- A generation while one of its functions runs. -/
structure Live where
  gen : Generation
  world : World

def Live.qualify (l : Live) (f : Quality → Quality) : Live := { l with gen := l.gen.qualify f }

end Telepty.Vt
