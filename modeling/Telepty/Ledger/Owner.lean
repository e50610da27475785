import Telepty.Ledger.Group
import Telepty.Ledger.Open

/-!
# Messages of the owner

Reads, resolution of transactions, closing and the dispatcher. The flush timer of a group is an
additional `flush` at any moment, so it is not part of the memory.
-/

namespace Telepty.Ledger

open Infra Prog

/-! ## Reads -/

/-- The record of an id over the tiers, or the reason why there is none; with the tier. -/
def getRecord (o : Options) (fs : FS) (s : State) (id : Text) :
    Except Failure (Except Text (Json × Text)) :=
  if id = [] then .ok (.error "invalid_id")
  else
    match s.hot.get? id with
    | some hot => .ok (.ok (overlay hot s.facts, "hot"))
    | none => do
      match ← coldLookup o fs s id with
      | some found => return .ok (overlay found s.facts, "cold")
      | none =>
        if coldOfflineHas o s id then return .error "cold_offline"
        else return .error "not_observed_by_daemon_epoch"

/-- The fields of a record that a listing shows. -/
def minimal (r : Json) : Json :=
  .obj ((["inject_id", "session_id", "transport_source", "tracking_state", "created_at",
    "observation_seq", "last_observation"] : List Text).filterMap fun k => (r.field k).map fun v => (k, v))

/-- `String(a.created_at).localeCompare(String(b.created_at)) <= 0` on ISO times. -/
def createdLe (a b : Json) : Prop :=
  ¬ (templateText (b.field "created_at")).map Char.toNat
    < (templateText (a.field "created_at")).map Char.toNat

instance : DecidableRel createdLe := fun _ _ => inferInstanceAs (Decidable (¬ _))

/-- `listSession`: the hot records of a session and the cold ones whose id is not hot. -/
def listSession (o : Options) (fs : FS) (s : State) (sid : Text) : Except Failure (List Json) := do
  let hotIds := idsOf s.hot.bySession sid
  let hot := hotIds.filterMap fun id => s.hot.get? id
  let cold ← coldRecordsOf o fs sid s.cold
  let cold := cold.filter fun r => r.textField "inject_id" ∉ hotIds
  return ((hot ++ cold).map fun r => minimal (overlay r s.facts)).insertionSort createdLe

/-- What the owner is asked to read. -/
inductive ReadOp where
  | get (id : Text)
  | listSession (sid : Text)
  | status
  | unknown

/-- The part of `status()` that names the store's own state. -/
def statusJson (s : State) : Json :=
  .obj [("epoch", .num s.epoch), ("seq_committed", .num s.seqCommitted),
    ("seq_next", .num s.seqNext)]

def read (o : Options) (req : Text) (op : ReadOp) : Owner Unit := do
  let s ← get
  let fs ← disk
  if req = [] then pure ()
  else
    match s.state with
    | .recovering => post (.readChunk req [] "recovering" [])
    | .unavailableRead => post (.readChunk req [] s.reason [])
    | _ =>
      match op with
      | .get id =>
        match getRecord o fs s id with
        | .error e => post (.readChunk req [] (("read_failed:" : Text) ++ e.code) [])
        | .ok (.ok (record, tier)) => post (.readChunk req [toLegacyRecord record] [] tier)
        | .ok (.error reason) => post (.readChunk req [] reason [])
      | .listSession sid =>
        match listSession o fs s sid with
        | .error e => post (.readChunk req [] (("read_failed:" : Text) ++ e.code) [])
        | .ok items => post (.readChunk req items [] [])
      | .status => post (.readChunk req [statusJson s] [] [])
      | .unknown => post (.readChunk req [] "unknown_op" [])

/-! ## Resolution -/

def resolveOne (s : State) (txn : Text) : Json :=
  match s.receipts.get? txn with
  | some r => .obj [("txn", .str txn), ("outcome", .str "committed"), ("pos", r.pos.toJson),
      ("kind", .str r.kind), ("id", r.id.elim .null .str)]
  | none =>
    match s.unappliedTxns.get? txn with
    | some (segment, offset) => .obj [("txn", .str txn), ("outcome", .str "not_applied"),
        ("segment", .str segment), ("offset", .num offset)]
    | none => .obj [("txn", .str txn), ("outcome", .str "unresolved")]

/-- `POOL_TOTALS.entries` -/
def resolveMax : Nat := 2764

def resolve (req : Text) (txns : List Text) : Owner Unit := do
  let s ← get
  post (.resolveChunk req ((txns.take resolveMax).map (resolveOne s)))

/-! ## Close -/

/-- The part of `close` under its `try`; whether the close was clean. -/
def closeBody (o : Options) : Owner Bool := do
  let s ← get
  if s.state = .available then do
    flushGroup o
    let s ← get
    if s.state = .available then do
      let _ ← checkpoint o "close"
      writeManifest o true none
      return true
    else return false
  else return false

def close (o : Options) : Owner Unit := do
  modify fun s => { s with closing := true }
  let clean ← catching (closeBody o) fun e => do
    post (.progress "close" e.code)
    return false
  let s ← get
  closeSegment o
  postState .closed [] []
  post (.closed clean (s.possiblyDurable.elim 0 fun p => p.txns.length))

/-! ## The dispatcher -/

/-- Client to owner. -/
inductive Message where
  | open (liveSids : List Text)
  | submit (msg : Submit)
  | read (req : Text) (op : ReadOp)
  | live (sid : Text) (on : Bool)
  | compact (req : Text)
  | resolve (req : Text) (txns : List Text)
  | close
  | flush

def compact (o : Options) (req : Text) : Owner Unit :=
  catching
    (do
      let r ← checkpoint o "requested"
      post (.readChunk req [r] [] []))
    fun e => post (.readChunk req [] (("compact_failed:" : Text) ++ e.code) [])

def handle (o : Options) : Message → Owner Unit
  | .open liveSids => openStore o liveSids
  | .submit msg => submit o msg
  | .read req op => read o req op
  | .live sid on => modify fun s => { s with
      liveSids := if on then (if sid ∈ s.liveSids then s.liveSids else s.liveSids ++ [sid])
        else s.liveSids.filter (· ≠ sid) }
  | .compact req => compact o req
  | .resolve req txns => resolve req txns
  | .close => close o
  | .flush => flushGroup o

end Telepty.Ledger
