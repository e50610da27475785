import Telepty.Forward.Routes

/-!
# The broker hub

Nodes keep a stream open to the hub; the hub sends them the envelopes of the requests it admits.
A request reserves its receipt in the forward ledger and writes the envelope on a fresh reservation.
A broadcast reserves a group and then every child before it writes anything. The node's result, a
timeout or the loss of the stream ends the reservation later.

Who a request comes from, whether a stream takes what is written to it and what the audit log does
are up to the environment; signing is a parameter.
-/

namespace Telepty.Broker

open Infra Infra.Prog Mailbox Principal Forward

/-! ## Configuration -/

structure Limit where
  maxPayloadBytes : Nat
  maxRequests : Nat
  windowMs : Nat
  maxPending : Nat

structure NodeConfig where
  audience : Text
  limit : Limit

structure KeyGrant where
  action : Text
  targets : List Text

/-- The nodes with their limits, and the grants of each trusted key. -/
structure Config where
  nodes : OrdMap Text NodeConfig
  keys : OrdMap Text (List KeyGrant)

/-- Who signed a request. -/
structure Caller where
  id : Text
  keyId : Text

/-- `createSignedAssertion` for an envelope: the challenge of the stream, the audience, the target
and the body. -/
abbrev Sign : Type := Text → Text → Text → Json → Except Failure Text

/-! ## The machine -/

/-- What leaves the hub. An envelope comes with the record it is sent for and, for a child of a
broadcast, with the keys of all its children. -/
structure Envelope where
  node : Text
  frame : Text
  record : Json
  siblings : List Text

inductive Effect where
  | envelope (e : Envelope)
  | reply (status : Nat) (body : Json)

structure Memory where
  active : List Text := []
  /-- the challenge of each connected node -/
  streams : OrdMap Text Text := .empty
  timers : List Text := []

/-- What the stream does when the envelope of a key is written. -/
structure Wire where
  destroyed : Bool
  writableLength : Nat
  throws : Bool

abbrev Wires : Type := Text → Wire

variable (home : Path) (env : Env) (config : Config) (sign : Sign)

/-! ## Receipts -/

abbrev Members : Type := List (Text × Json)

/-- `v || null` of a member. -/
def memberOrNull (name : Text) (record : Json) : Text × Json := (name, orNull (record.field name))

/-- `view(record)` of the hub. -/
def view (active : List Text) (record : Json) : Json :=
  .obj (memberIfAny "receipt_id" (record.field "receipt_id") ++
    memberIfAny "source_node" (record.field "source_node") ++
    memberIfAny "target_node" (record.field "target_node") ++
    memberIfAny "session" (record.field "session") ++
    memberIfAny "expected_epoch" (record.field "expected_epoch") ++
    ([("state", .str (shownState active record)), memberOrNull "code" record,
      memberOrNull "remote_inject_id" record,
      ("remote_queued", .bool (isTrue (record.field "remote_queued")))] : Members) ++
    memberIfAny "in_reply_to" ((record.field "in_reply_to").filter fun v => !isNull (orNull v)) ++
    memberIfAny "foreign_session_identity_verified" (some (.bool false)))

/-- `finish(record, update)` -/
def finish (record : Json) (update : Members) : Prog Memory Effect Json := do
  let next := spread record update
  write home env next false
  modify fun s => { s with
    active := s.active.erase (keyText record)
    timers := s.timers.erase (keyText record) }
  pure next
where
  keyText (record : Json) : Text := record.textField "receipt_id"

/-! ## Planning -/

/-- `id(value)` -/
def nodeId (t : Text) : Bool :=
  match t with
  | [] => false
  | c :: rest => c.isAlphanum && rest.length ≤ 63 &&
      rest.all fun c => c.isAlphanum || c = '.' || c = '_' || c = '-'

def sessionName (sid : Text) : Bool :=
  sid ≠ [] && byteLength sid ≤ 128 && !sid.any (fun c => c = '/' || c = '\\' || isControl c) &&
    sid ≠ ("." : Text) && sid ≠ (".." : Text)

/-- What is to be sent where, for whom and under which key. -/
structure Operation where
  source : Text
  target : Text
  sid : Text
  payload : Json
  key : Text
  limit : Limit
  audience : Text
  fingerprint : Text
  metadata : Members

/-- The key of an inject. -/
def injectKey (source : Text) (body : Json) : Text :=
  hash ("broker:" ++ source ++ ':' :: idempotencyKey body)

def canonicalHash (value : Json) : Except Failure Text :=
  match canonicalJSON value with
  | some t => .ok (hash t)
  | none => .error (failure "TypeError")

/-- The members that a reservation of the hub adds. -/
def metadataOf (source target sid : Text) (payload : Json) (extra : Members) : Members :=
  ([("direction", .str "broker"), ("source_node", .str source), ("target_node", .str target),
    ("session", .str sid), ("expected_epoch", .str (payload.textField "expected_epoch"))] :
      Members) ++ extra

/-- `plan(source, target, sid, body, principal, { key, binding, metadata })` -/
def plan (source target sid : Text) (body : Json) (key : Text) (binding : Option Json)
    (extra : Members) : Except Failure Operation :=
  match config.nodes.get? source, config.nodes.get? target with
  | some sourceNode, some targetNode =>
    if nodeId source && nodeId target && sessionName sid then do
      let payload ← validateBody body
      if sourceNode.limit.maxPayloadBytes < byteLength (payload.textField "prompt") then
        .error (failure "BROKER_PAYLOAD_DENIED")
      else do
        let fingerprint ← canonicalHash (.obj (([("source", .str source), ("target", .str target),
          ("sid", .str sid), ("payload", payload)] : Members) ++ memberIfAny "binding" binding))
        pure {
          source := source
          target := target
          sid := sid
          payload := payload
          key := key
          limit := sourceNode.limit
          audience := targetNode.audience
          fingerprint := fingerprint
          metadata := metadataOf source target sid payload extra }
    else .error (failure "BROKER_NODE_DENIED")
  | _, _ => .error (failure "BROKER_NODE_DENIED")

/-! ## Dispatching -/

def recentFrom (source : Text) (windowMs now : Nat) (record : Json) : Bool :=
  textOf (record.field "source_node") = some source &&
    match record.field "created_at" with
    | some (.num n) => now ≤ n + windowMs
    | _ => false

def openFrom (source : Text) (active : List Text) (record : Json) : Bool :=
  textOf (record.field "source_node") = some source &&
    active.contains (record.textField "receipt_id")

/-- `admit(source, count, pending)` -/
def admitUsage (source : Text) (limit : Limit) (count pending : Nat) : Prog Memory Effect Unit := do
  let records ← all home env
  let time ← now env
  let memory ← get
  if maxRecords < records.length + count then raise (failure "FORWARD_CAPACITY")
  else if limit.maxRequests <
      (records.filter (recentFrom source limit.windowMs time)).length + count then
    raise (failure "BROKER_BUDGET_EXCEEDED")
  else if limit.maxPending < (records.filter (openFrom source memory.active)).length + pending then
    raise (failure "BROKER_BACKPRESSURE")
  else pure ()

/-- `reserve(operation)` -/
def reserve (operation : Operation) : Prog Memory Effect Reserved :=
  Forward.reserve home env operation.key operation.fingerprint operation.metadata

def envelopeBody (operation : Operation) : Json :=
  .obj (([("schema", .str "telepty.broker-envelope/v1"), ("receipt_id", .str operation.key),
    ("source_node", .str operation.source), ("target_node", .str operation.target),
    ("session", .str operation.sid), ("payload", operation.payload), ("hop", .num 1),
    ("foreign_session_identity_verified", .bool false)] : Members) ++
    memberIfAny "in_reply_to" (((Json.obj operation.metadata).field "in_reply_to").filter
      fun v => !isNull (orNull v)))

/-- `data: …` with the envelope and its assertion. -/
def frameOf (envelope : Json) (assertion : Text) : Text :=
  "data: " ++ Json.stringify (.obj [("envelope", envelope), ("assertion", .str assertion)]) ++
    ['\n', '\n']

def maxFrameBytes : Nat := 128 * 1024

abbrev Answer : Type := Nat × Json

/-- `return { status, body: view(finish(record, update)) }` -/
def finishWith (record : Json) (status : Nat) (update : Members) :
    Prog Memory Effect Answer := do
  let next ← finish home env record update
  let memory ← get
  pure (status, view memory.active next)

/-- The write of a frame to the stream of a node. -/
def writeFrame (e : Envelope) (wire : Wire) : Prog Memory Effect Unit := do
  post (.envelope e)
  if wire.throws then raise (failure "ERR_STREAM") else pure ()

/-- `dispatch(operation, reserved)`; `siblings` are the children of the broadcast it is part of. -/
def dispatch (operation : Operation) (reserved : Reserved) (siblings : List Text) (wires : Wires) :
    Prog Memory Effect Answer := do
  let memory ← get
  if ¬ reserved.fresh then pure (200, view memory.active reserved.record)
  else
    let wire := wires operation.key
    match memory.streams.get? operation.target with
    | none =>
      finishWith home env reserved.record 503
        [("state", .str "failed"), ("code", .str "BROKER_NODE_OFFLINE")]
    | some challenge =>
      if wire.destroyed then
        finishWith home env reserved.record 503
          [("state", .str "failed"), ("code", .str "BROKER_NODE_OFFLINE")]
      else do
        let envelope := envelopeBody operation
        let proof ← ofExcept (sign challenge operation.audience
          ("/v1/envelopes/" ++ operation.key) envelope)
        let frame := frameOf envelope proof
        if maxFrameBytes < byteLength frame ∨
            maxFrameBytes < wire.writableLength + byteLength frame then
          finishWith home env reserved.record 429
            [("state", .str "failed"), ("code", .str "BROKER_BACKPRESSURE")]
        else do
          modify fun s => { s with active := operation.key :: s.active }
          (do
            writeFrame ⟨operation.target, frame, reserved.record, siblings⟩ wire
            modify fun s => { s with timers := operation.key :: s.timers }
            let memory ← get
            pure (202, view memory.active reserved.record) : Prog Memory Effect Answer).catching
            fun _ => finishWith home env reserved.record 202
              [("state", .str "outcome_unknown"), ("code", .str "BROKER_WRITE_UNKNOWN")]

/-- `inject(operation)` -/
def inject (operation : Operation) (wires : Wires) : Prog Memory Effect Answer := do
  match ← Forward.read home env operation.key with
  | some _ => pure ()
  | none => admitUsage home env operation.source operation.limit 1 1
  let reserved ← reserve home env operation
  dispatch home env sign operation reserved [] wires

/-! ## Broadcasts -/

/-- A caller that a request may come from: the node itself. -/
def sourcePrincipal (caller : Caller) (source : Text) : Except Failure Unit :=
  if caller.id = source ∧ config.nodes.has source then .ok ()
  else .error (failure "BROKER_NODE_DENIED")

/-- `object(value, fields)` -/
def objectOf (fields : List Text) : Json → Bool
  | .obj members => members.all fun m => fields.contains m.1
  | _ => false

def childMissing (child : Json) : Json :=
  spread child [("state", .str "outcome_unknown"), ("code", .str "BROKER_CHILD_INTENT_MISSING"),
    ("foreign_session_identity_verified", .bool false)]

/-- The children of a group as they are now. -/
def childViews (group : Json) : List Json → Prog Memory Effect (List Json)
  | [] => pure []
  | child :: children => do
    let found ← Forward.read home env (child.textField "receipt_id")
    let memory ← get
    match found with
    | none =>
      let rest ← childViews group children
      pure (childMissing child :: rest)
    | some record =>
      if textOf (record.field "source_node") = textOf (group.field "source_node") ∧
          textOf (record.field "group_receipt_id") = textOf (group.field "receipt_id") then do
        let rest ← childViews group children
        pure (view memory.active record :: rest)
      else raise (failure "BROKER_STORAGE_UNAVAILABLE")

/-- The state that all children are in, or `mixed`. -/
def commonState (children : List Json) : Text :=
  match children.map fun c => c.textField "state" with
  | [] => "mixed"
  | state :: states => if states.all (· = state) then state else "mixed"

/-- `groupView(group)` -/
def groupView (group : Json) : Prog Memory Effect Json := do
  match group.field "children" with
  | some (.arr children) =>
    if textOf (group.field "direction") = some "broker-broadcast" ∧ 1 ≤ children.length ∧
        children.length ≤ 8 then do
      let views ← childViews home env group children
      pure (.obj (memberIfAny "receipt_id" (group.field "receipt_id") ++
        memberIfAny "source_node" (group.field "source_node") ++
        ([("state", .str (commonState views)), ("children", .arr views),
          ("foreign_session_identity_verified", .bool false)] : Members)))
    else raise (failure "BROKER_STORAGE_UNAVAILABLE")
  | _ => raise (failure "BROKER_STORAGE_UNAVAILABLE")

/-- The key of a broadcast, and of its child with this number. -/
def groupKey (source key : Text) : Text := hash ("broker-broadcast:" ++ source ++ ':' :: key)

def childKey (group : Text) (index : Nat) : Text :=
  hash ("broker-broadcast-child:" ++ group ++ ':' :: natText index)

/-- The grant of a key for one exact target. -/
def mayInject (caller : Caller) (exact : Text) : Bool :=
  ((config.keys.get? caller.keyId).getD []).any fun g =>
    g.action = ("broker.inject" : Text) && g.targets.contains exact

/-- The plan of one child. -/
def planChild (source group : Text) (caller : Caller) (body : Json) (index : Nat) (target : Json)
    (seen : List Text) : Except Failure (Text × Operation) := do
  if objectOf ["node", "session", "expected_epoch"] target &&
      nodeId (target.textField "node") && (textOf (target.field "session")).isSome then
    let exact := target.textField "node" ++ '/' :: target.textField "session"
    if seen.contains exact then .error (failure "BROKER_BROADCAST_INVALID")
    else if mayInject config caller exact then do
      let operation ← plan config source (target.textField "node") (target.textField "session")
        (.obj (memberIfAny "prompt" (body.field "prompt") ++
          memberIfAny "no_enter" (body.field "no_enter") ++
          memberIfAny "expected_epoch" (target.field "expected_epoch") ++
          memberIfAny "idempotency_key" (body.field "idempotency_key")))
        (childKey group index) (some (.obj [("group", .str group), ("index", .num index)]))
        [("group_receipt_id", .str group)]
      pure (exact, operation)
    else .error (failure "BROKER_BROADCAST_TARGET_DENIED")
  else .error (failure "BROKER_BROADCAST_INVALID")

/-- The plans of all children, none of them for a target that was named before. -/
def planChildren (source group : Text) (caller : Caller) (body : Json) :
    Nat → List Text → List Json → Except Failure (List Operation)
  | _, _, [] => .ok []
  | index, seen, target :: targets => do
    let (exact, operation) ← planChild config source group caller body index target seen
    let rest ← planChildren source group caller body (index + 1) (exact :: seen) targets
    pure (operation :: rest)

def childEntry (operation : Operation) : Json :=
  .obj [("receipt_id", .str operation.key), ("target_node", .str operation.target),
    ("session", .str operation.sid),
    ("expected_epoch", .str (operation.payload.textField "expected_epoch"))]

def groupMetadata (source : Text) (plans : List Operation) : Members :=
  [("direction", .str "broker-broadcast"), ("source_node", .str source),
    ("children", .arr (plans.map childEntry))]

/-- `plans.map(plan => dispatch.reserve(plan))` -/
def reserveAll : List Operation → Prog Memory Effect (List (Operation × Reserved))
  | [] => pure []
  | operation :: operations => do
    let reserved ← reserve home env operation
    let rest ← reserveAll operations
    pure ((operation, reserved) :: rest)

/-- `for (…) dispatch.dispatch(plans[index], children[index])` -/
def dispatchAll (siblings : List Text) (wires : Wires) :
    List (Operation × Reserved) → Prog Memory Effect Unit
  | [] => pure ()
  | (operation, reserved) :: rest => do
    let _ ← dispatch home env sign operation reserved siblings wires
    dispatchAll siblings wires rest

structure BroadcastRequest where
  source : Text
  body : Json
  caller : Except Failure Caller
  wires : Wires

/-- `body.targets`, where the body is one of a broadcast. -/
def targetsOf (body : Json) : Except Failure (List Json) :=
  match body.field "targets" with
  | some (.arr targets) =>
    if objectOf ["idempotency_key", "prompt", "no_enter", "targets"] body &&
        textWhere tokenText (body.field "idempotency_key") && 1 ≤ targets.length &&
        targets.length ≤ 8 then .ok targets
    else .error (failure "BROKER_BROADCAST_INVALID")
  | _ => .error (failure "BROKER_BROADCAST_INVALID")

/-- The plans of a broadcast and its fingerprint. -/
def planBroadcast (req : BroadcastRequest) : Except Failure (List Operation × Text) := do
  let caller ← req.caller
  sourcePrincipal config caller req.source
  let targets ← targetsOf req.body
  let group := groupKey req.source (req.body.textField "idempotency_key")
  let plans ← planChildren config req.source group caller req.body 0 [] targets
  let fingerprint ← canonicalHash req.body
  pure (plans, fingerprint)

/-- The group, its children and then the envelopes. -/
def commitBroadcast (req : BroadcastRequest) (group fingerprint : Text) (limit : Limit)
    (plans : List Operation) : Prog Memory Effect Answer := do
  admitUsage home env req.source limit (plans.length + 1) plans.length
  let metadata := groupMetadata req.source plans
  let time ← now env
  if maxRecordBytes < byteLength (pendingRecord group fingerprint time metadata).stringify then
    raise (failure "BROKER_BROADCAST_INVALID")
  else do
    let reserved ← Forward.reserve home env group fingerprint metadata
    let children ← reserveAll home env plans
    dispatchAll home env sign (plans.map Operation.key) req.wires children
    let shown ← groupView home env reserved.record
    pure (202, shown)

/-- `POST /v1/nodes/:source/broadcast` -/
def broadcast (req : BroadcastRequest) : Prog Memory Effect Answer := do
  let (plans, fingerprint) ← ofExcept (planBroadcast config req)
  let group := groupKey req.source (req.body.textField "idempotency_key")
  match ← Forward.read home env group with
  | some existing =>
    if textOf (existing.field "fingerprint") = some fingerprint then do
      let shown ← groupView home env existing
      pure (200, shown)
    else raise (failure "IDEMPOTENCY_CONFLICT")
  | none =>
    match config.nodes.get? req.source with
    | none => raise (failure "BROKER_NODE_DENIED")
    | some node => commitBroadcast home env sign req group fingerprint node.limit plans

/-! ## The other routes -/

structure InjectRequest where
  source : Text
  target : Text
  sid : Text
  body : Json
  caller : Except Failure Caller
  wires : Wires

/-- `POST /v1/nodes/:source/to/:target/sessions/:sid/inject` -/
def injectRoute (req : InjectRequest) : Prog Memory Effect Answer := do
  let caller ← ofExcept req.caller
  ofExcept (sourcePrincipal config caller req.source)
  let operation ← ofExcept (plan config req.source req.target req.sid req.body
    (injectKey req.source req.body) none [])
  inject home env sign operation req.wires

/-- `originalFor(responder, receipt)` -/
def originalFor (responder receipt : Text) : Prog Memory Effect Json := do
  match ← Forward.read home env receipt with
  | some original =>
    if textOf (original.field "direction") = some "broker" ∧
        textOf (original.field "target_node") = some responder then pure original
    else raise (failure "BROKER_REPLY_CONTEXT_NOT_FOUND")
  | none => raise (failure "BROKER_REPLY_CONTEXT_NOT_FOUND")

structure ReplyRequest where
  responder : Text
  receipt : Text
  body : Json
  caller : Except Failure Caller
  wires : Wires

def replyFields : List Text :=
  ["target_node", "return_session", "expected_epoch", "idempotency_key", "prompt", "no_enter"]

/-- `POST /v1/nodes/:responder/replies/:receipt` -/
def replyRoute (req : ReplyRequest) : Prog Memory Effect Answer := do
  if objectOf replyFields req.body && nodeId (req.body.textField "target_node") &&
      (textOf (req.body.field "return_session")).isSome then
    let caller ← ofExcept req.caller
    ofExcept (sourcePrincipal config caller req.responder)
    let original ← originalFor home env req.responder req.receipt
    if textOf (original.field "source_node") = textOf (req.body.field "target_node") then
      let context := ([("in_reply_to", .str req.receipt)] : Members) ++
        memberIfAny "original_fingerprint" (original.field "fingerprint")
      let operation ← ofExcept (plan config req.responder (req.body.textField "target_node")
        (req.body.textField "return_session")
        (.obj (memberIfAny "prompt" (req.body.field "prompt") ++
          memberIfAny "no_enter" (req.body.field "no_enter") ++
          memberIfAny "expected_epoch" (req.body.field "expected_epoch") ++
          memberIfAny "idempotency_key" (req.body.field "idempotency_key")))
        (injectKey req.responder req.body) (some (.obj context)) context)
      inject home env sign operation req.wires
    else raise (failure "BROKER_REPLY_TARGET_DENIED")
  else raise (failure "BROKER_REPLY_INVALID")

/-- `GET /v1/nodes/:source/broadcast-receipts/:key` -/
def groupQuery (source key : Text) (caller : Except Failure Caller) :
    Prog Memory Effect Answer := do
  let caller ← ofExcept caller
  ofExcept (sourcePrincipal config caller source)
  match ← Forward.read home env (groupKey source key) with
  | some group =>
    if textOf (group.field "source_node") = some source then do
      let shown ← groupView home env group
      pure (200, shown)
    else raise (failure "BROKER_RECEIPT_NOT_FOUND")
  | none => raise (failure "BROKER_RECEIPT_NOT_FOUND")

/-- `GET /v1/nodes/:source/receipts/:key` -/
def receiptQuery (source key : Text) (caller : Except Failure Caller) :
    Prog Memory Effect Answer := do
  let caller ← ofExcept caller
  if caller.id = source then do
    match ← Forward.read home env (hash ("broker:" ++ source ++ ':' :: key)) with
    | some record =>
      if textOf (record.field "source_node") = some source then do
        let memory ← get
        pure (200, view memory.active record)
      else raise (failure "BROKER_RECEIPT_NOT_FOUND")
    | none => raise (failure "BROKER_RECEIPT_NOT_FOUND")
  else raise (failure "BROKER_NODE_DENIED")

/-- `GET /v1/nodes/:responder/reply-context/:receipt` -/
def replyContext (responder receipt : Text) (caller : Except Failure Caller) :
    Prog Memory Effect Answer := do
  let caller ← ofExcept caller
  ofExcept (sourcePrincipal config caller responder)
  let original ← originalFor home env responder receipt
  let memory ← get
  pure (200, .obj (([("receipt_id", .str receipt)] : Members) ++
    memberIfAny "source_node" (original.field "source_node") ++
    memberIfAny "target_node" (original.field "target_node") ++
    memberIfAny "session" (original.field "session") ++
    memberIfAny "expected_epoch" (original.field "expected_epoch") ++
    ([("state", .str (shownState memory.active original)),
      ("foreign_session_identity_verified", .bool false)] : Members)))

/-- `POST /v1/nodes/:node/stream` -/
def openStream (node challenge : Text) (caller : Except Failure Caller) :
    Prog Memory Effect Unit := do
  let caller ← ofExcept caller
  let memory ← get
  if caller.id = node ∧ config.nodes.has node ∧ tokenText challenge then
    if memory.streams.has node then raise (failure "BROKER_NODE_ALREADY_CONNECTED")
    else modify fun s => { s with streams := s.streams.set node challenge }
  else raise (failure "BROKER_NODE_DENIED")

/-- The open reservations for a node whose stream is gone. -/
def loseAll (node : Text) : List Json → Prog Memory Effect Unit
  | [] => pure ()
  | record :: records => do
    let memory ← get
    if textOf (record.field "direction") = some "broker" ∧
        textOf (record.field "target_node") = some node ∧
        record.textField "receipt_id" ∈ memory.active then
      (finish home env record
        [("state", .str "outcome_unknown"), ("code", .str "BROKER_STREAM_LOST")] >>= fun _ =>
          pure ()).catching fun _ =>
        modify fun s => { s with active := s.active.erase (record.textField "receipt_id") }
    else pure ()
    loseAll node records

/-- The `close` of a stream. -/
def closeStream (node : Text) : Prog Memory Effect Unit := do
  modify fun s => { s with streams := s.streams.delete node }
  let records ← (all home env >>= fun records => pure (some records)).catching fun _ => pure none
  match records with
  | some records => loseAll home env node records
  | none => pure ()

/-- The timeout of an envelope. -/
def timeout (key : Text) : Prog Memory Effect Unit := do
  let memory ← get
  if key ∈ memory.timers then do
    modify fun s => { s with timers := s.timers.erase key }
    (do
      match ← Forward.read home env key with
      | some current =>
        if recordState current = ("pending" : Text) then do
          let _ ← finish home env current
            [("state", .str "outcome_unknown"), ("code", .str "BROKER_RESULT_TIMEOUT")]
        else pure ()
      | none => pure () : Prog Memory Effect Unit).catching fun _ =>
      modify fun s => { s with active := s.active.erase key }
  else pure ()

/-- `/^[A-Z0-9_]{1,64}$/` -/
def resultCode (t : Text) : Bool :=
  t ≠ [] && t.length ≤ 64 && t.all fun c => c.isUpper || c.isDigit || c = '_'

def resultStates : List Text := ["accepted", "failed", "outcome_unknown"]

def resultValid (body : Json) : Bool :=
  objectOf ["state", "inject_id", "queued", "code"] body &&
    textWhere resultStates.contains (body.field "state") &&
    (body.textField "state" ≠ ("accepted" : Text) ||
      textWhere (fun t => t ≠ [] && Interaction.utf16Length t ≤ 128) (body.field "inject_id")) &&
    ((body.field "code").map coerced).all resultCode

/-- The members that the result of a node sets. -/
def resultUpdate (body : Json) (fingerprint : Text) : Members :=
  if body.textField "state" = ("accepted" : Text) then
    [("state", .str (body.textField "state")), ("result_fingerprint", .str fingerprint),
      ("remote_inject_id", .str (body.textField "inject_id")),
      ("remote_queued", .bool (isTrue (body.field "queued")))]
  else
    [("state", .str (body.textField "state")), ("result_fingerprint", .str fingerprint),
      ("code", if isNull (orNull (body.field "code")) then .str "BROKER_DESTINATION_UNKNOWN"
        else orNull (body.field "code"))]

/-- `POST /v1/nodes/:node/results/:key` -/
def result (node key : Text) (body : Json) (caller : Except Failure Caller) :
    Prog Memory Effect Answer := do
  let caller ← ofExcept caller
  if caller.id = node then do
    match ← Forward.read home env key with
    | some record =>
      if textOf (record.field "target_node") ≠ some node then
        raise (failure "BROKER_RECEIPT_NOT_FOUND")
      else if resultValid body then do
        let fingerprint ← ofExcept (canonicalHash body)
        if isNull (orNull (record.field "result_fingerprint")) then
          finishWith home env record 200 (resultUpdate body fingerprint)
        else if textOf (record.field "result_fingerprint") = some fingerprint then do
          let memory ← get
          pure (200, view memory.active record)
        else raise (failure "IDEMPOTENCY_CONFLICT")
      else raise (failure "BROKER_RESULT_INVALID")
    | none => raise (failure "BROKER_RECEIPT_NOT_FOUND")
  else raise (failure "BROKER_NODE_DENIED")

/-! ## Runs -/

/-- The status of the errors that have one. -/
def brokerStatusOf (code : Text) : Option Nat :=
  (([("BROKER_NODE_DENIED", 403), ("BROKER_PAYLOAD_DENIED", 413), ("BROKER_BUDGET_EXCEEDED", 429),
    ("BROKER_BACKPRESSURE", 429), ("BROKER_STORAGE_UNAVAILABLE", 503),
    ("BROKER_REPLY_CONTEXT_NOT_FOUND", 404), ("BROKER_BROADCAST_INVALID", 400),
    ("BROKER_BROADCAST_TARGET_DENIED", 403), ("BROKER_RECEIPT_NOT_FOUND", 404),
    ("BROKER_REPLY_INVALID", 400), ("BROKER_REPLY_TARGET_DENIED", 403),
    ("BROKER_NODE_ALREADY_CONNECTED", 409), ("BROKER_RESULT_INVALID", 400)] :
      List (Text × Nat)).lookup code).or (statusOf code)

/-- The answer to an error. -/
def brokerError (e : Failure) : Effect :=
  match brokerStatusOf e.code with
  | some status => .reply status (refusal e.code)
  | none => .reply 503 (refusal "BROKER_STORAGE_UNAVAILABLE")

/-- `handler(req, res)` around a route. -/
def respond (route : Prog Memory Effect Answer) : Prog Memory Effect Unit :=
  (route >>= fun answer => post (.reply answer.1 answer.2)).catching fun e => post (brokerError e)

abbrev Hub := Machine Memory Effect

inductive Event where
  | inject (req : InjectRequest)
  | reply (req : ReplyRequest)
  | broadcast (req : BroadcastRequest)
  | groupQuery (source key : Text) (caller : Except Failure Caller)
  | receiptQuery (source key : Text) (caller : Except Failure Caller)
  | replyContext (responder receipt : Text) (caller : Except Failure Caller)
  | result (node key : Text) (body : Json) (caller : Except Failure Caller)
  | openStream (node challenge : Text) (caller : Except Failure Caller)
  | closeStream (node : Text)
  | timeout (key : Text)
  | restart

def handle : Event → Prog Memory Effect Unit
  | .inject req => respond (injectRoute home env config sign req)
  | .reply req => respond (replyRoute home env config sign req)
  | .broadcast req => respond (broadcast home env config sign req)
  | .groupQuery source key caller => respond (groupQuery home env config source key caller)
  | .receiptQuery source key caller => respond (receiptQuery home env source key caller)
  | .replyContext responder receipt caller =>
    respond (replyContext home env config responder receipt caller)
  | .result node key body caller => respond (result home env node key body caller)
  | .openStream node challenge caller =>
    (openStream config node challenge caller).catching fun e => post (brokerError e)
  | .closeStream node => closeStream home env node
  | .timeout key => timeout home env key
  | .restart => modify fun _ => {}

/-- One event; what a process that died had in memory is gone. -/
def step (m : Hub) (e : Event) : Hub :=
  match handle home env config sign e m with
  | .done _ m' | .raised _ m' => m'
  | .crashed m' => { m' with mem := {} }

def run (m : Hub) (es : List Event) : Hub := es.foldl (step home env config sign) m

/-- The hub before the first event: a disk, and nothing else. -/
def fresh (fs : FS) : Hub := ⟨{}, fs, 0, []⟩

end Telepty.Broker
