import Telepty.Vt.Generation

/-!
# The queue in front of the emulator

`_enqueue` and `_pump`. One queue orders output, resizes and drops. The pump carries out the
operations at its head that are no output, then passes one string to `write`: the outputs in front
of the next operation, joined up to 65536 units. It goes on when the callback of that write comes.

Nothing that the pump calls replaces the generation, so its test for that is left out.
-/

namespace Telepty.Vt

open Infra

/-! ## Terminals -/

/-- `_ensureTerminal()` -/
def ensureTerminal (e : Emulator) (l : Live) : Live :=
  if l.gen.term ∨ l.gen.stopped then l
  else
    let built := e.construct l.world.calls
    let l := { l with world := l.world.called }
    match built with
    | .terminal =>
      { l with gen := { l.gen with
          term := true
          cols := some (l.gen.cols.getD 80)
          rows := some (l.gen.rows.getD 24) } }
    | .libraryInvalid => l.qualify fun q => q.degrade .vtLibraryInvalid
    | .libraryUnavailable => l.qualify fun q => q.degrade .vtLibraryUnavailable
    | .failed => l.qualify fun q => q.degrade .vtConstructFailed

/-- `_disposeTerm(gen)` -/
def Generation.disposeTerm (g : Generation) : Generation := { g with term := false }

/-! ## Resizes and drops -/

/-- `_applyResize(gen, op)` -/
def applyResize (e : Emulator) (op : Resize) (l : Live) : Live :=
  if op.streamId ≠ none ∧ l.gen.streamId ≠ none ∧ op.streamId ≠ l.gen.streamId then
    l.qualify fun q => q.degrade .geometryStreamMismatch
  else if ¬op.selfStamped ∧ ¬op.unattested ∧ op.atUnits ≠ some op.anchor then
    l.qualify fun q =>
      Quality.degrade { q with geometrySource := .unverified } .geometryBoundaryMismatch
  else
    let l := if op.unattested then l.qualify fun q => q.degrade .geometryAtUnitsUnattested else l
    let appliedSource := if op.unattested then .unverified else op.source
    let l := ensureTerminal e l
    if ¬l.gen.term then
      l.qualify fun q =>
        { q with cols := some op.cols, rows := some op.rows, geometrySource := appliedSource }
    else
      let returns := e.resizes l.world.calls
      let l := { l with world := l.world.called }
      if returns then
        let known := !op.unattested && l.gen.observedUnits = 0
        l.qualify fun q =>
          { q with
            cols := some op.cols
            rows := some op.rows
            geometrySource := appliedSource
            geometryKnownBeforeFirstOutput := known || q.geometryKnownBeforeFirstOutput }
      else
        l.qualify fun q => { q.degrade .vtResizeFailed with geometrySource := .unverified }

/-- `_applyDropped(gen, op)` -/
def applyDropped (op : Drop) (l : Live) : Live :=
  l.qualify fun q =>
    let q := q.noteLoss (op.toUnits - op.fromUnits) .explicitDrop
    { q with
      streamPos := if q.streamPos.getD 0 < op.toUnits then some op.toUnits else q.streamPos
      overlapTail := []
      overlapTailStart := some op.toUnits }

/-- The operations at the head of the queue that are no output, in their turn. -/
def applyOps (e : Emulator) : List Op → Live → Live
  | .resize op :: queue, l =>
    applyOps e queue (applyResize e op { l with gen := { l.gen with queue := queue } })
  | .dropped op :: queue, l =>
    applyOps e queue (applyDropped op { l with gen := { l.gen with queue := queue } })
  | _, l => l

/-! ## Chunks -/

/-- `safeSplitIndex(str, end)` -/
def safeSplitIndex (str : Units) (last : Nat) : Nat :=
  if str.length ≤ last then str.length
  else if 0 < last ∧ ∃ code ∈ str[last - (1 : Nat)]?, code.isHighSurrogate then last - 1
  else last

structure Chunk where
  text : Units
  watermark : Nat
  queue : List Op
  queuedUnits : Nat

/-- The outputs at the head of the queue, joined to the chunk as far as there is room. -/
def fillChunk : List Op → Units → Nat → Nat → Chunk
  | .output data units mark :: queue, text, watermark, queuedUnits =>
    if text.length < maxWriteChunkUnits then
      let room := maxWriteChunkUnits - text.length
      if data.length ≤ room then fillChunk queue (text ++ data) mark (queuedUnits - units)
      else
        let cut := safeSplitIndex data room
        if cut = 0 then ⟨text, watermark, .output data units mark :: queue, queuedUnits⟩
        else
          ⟨text ++ data.take cut, mark - (units - cut),
            .output (data.drop cut) (units - cut) mark :: queue, queuedUnits - cut⟩
    else ⟨text, watermark, .output data units mark :: queue, queuedUnits⟩
  | queue, text, watermark, queuedUnits => ⟨text, watermark, queue, queuedUnits⟩

/-- `term.write(chunk, onWritten)` -/
def writeChunk (e : Emulator) (text : Units) (watermark : Nat) (l : Live) : Live :=
  let returns := e.writes l.world.calls
  let g := { l.gen with writes := l.gen.writes ++ [text] }
  if returns then
    { gen := { g with writing := true }
      world := { l.world.called with
        callbacks := l.world.callbacks ++ [⟨g.index, watermark, text.length⟩] } }
  else
    { gen := { g with writing := false, failed := true }.qualify fun q =>
        (q.degrade .vtWriteFailed).noteLoss text.length .vtWriteFailed
      world := l.world.called }

/-- `_pump()` -/
def pump (e : Emulator) (l : Live) : Live :=
  if l.gen.writing ∨ l.gen.stopped then l
  else
    let l := applyOps e l.gen.queue l
    if l.gen.queue.isEmpty then l
    else
      let l := ensureTerminal e l
      if ¬l.gen.term then l
      else
        let c := fillChunk l.gen.queue [] l.gen.appliedUnits l.gen.queuedUnits
        let l := { l with gen := { l.gen with queue := c.queue, queuedUnits := c.queuedUnits } }
        if c.text = [] then l else writeChunk e c.text c.watermark l

/-! ## Operations -/

/-- `op.kind === 'output' ? op.units : 0` -/
def Op.units : Op → Nat
  | .output _ units _ => units
  | _ => 0

def Op.isOutput : Op → Bool
  | .output _ _ _ => true
  | _ => false

/-- `gen.queue.push(op)`, with the accounts. -/
def Flow.push (f : Flow) : Op → Flow
  | .output data units _ =>
    { f with
      queue := f.queue ++ [.output data units (f.observedUnits + units)]
      queuedUnits := f.queuedUnits + units
      observedUnits := f.observedUnits + units
      accepted := f.accepted ++ [data] }
  | op => { f with queue := f.queue ++ [op] }

/-- `_enqueue(op)` -/
def enqueue (e : Emulator) (op : Op) (l : Live) : Live :=
  if l.gen.stopped then
    if op.isOutput then l.qualify fun q => q.noteLoss op.units .generationStopped else l
  else if queueMaxOps < l.gen.queue.length + 1 ∨ queueMaxUnits < l.gen.queuedUnits + op.units then
    l.qualify fun q =>
      q.noteLoss op.units (if op.isOutput then .queueOverflow else .queueOverflowOp)
  else pump e { l with gen := { l.gen with toFlow := l.gen.toFlow.push op } }

/-! ## Callbacks -/

/-- `_stopGeneration(gen)` -/
def Generation.stop (g : Generation) : Generation :=
  let lost := (g.queue.map Op.units).sum
  { g with
    stopped := true
    writing := false
    queue := []
    queuedUnits := 0
    droppedUnits := g.droppedUnits + lost }.disposeTerm

/-- `_auditCellGrowth(gen)` -/
def auditCellGrowth (e : Emulator) (l : Live) : Live :=
  if ¬l.gen.term then l
  else
    let total := e.gridUnits l.world.calls
    let l := { l with world := l.world.called }
    match total with
    | none => l.qualify fun q => q.degrade .cellAuditFailed
    | some total =>
      if maxGridUnits < total then
        { l with gen := (l.gen.qualify fun q =>
            (q.degrade .cellGrowthBoundExceeded).degradeCompleteness .partialAfterLoss).stop }
      else l

/-- What a callback of the generation itself does to its accounts. -/
def acknowledge (cb : Callback) (g : Generation) : Generation :=
  { g with
    writing := false
    appliedUnits := max g.appliedUnits cb.watermark
    unitsSinceCellAudit := g.unitsSinceCellAudit + cb.units }

/-- A callback of the generation itself. -/
def afterWrite (e : Emulator) (cb : Callback) (l : Live) : Live :=
  let l := { l with gen := acknowledge cb l.gen }
  if cellAuditIntervalUnits ≤ l.gen.unitsSinceCellAudit then
    let l := auditCellGrowth e { l with gen := { l.gen with unitsSinceCellAudit := 0 } }
    if l.gen.stopped then l else pump e l
  else pump e l

end Telepty.Vt
