import Telepty.Forward.Ledger

/-!
# Forwarding to a peer, and taking what was forwarded

The origin reserves the key of a request and sends the request on; the answer ends the reservation
later, in another turn of the event loop. The destination reserves the forwarding key and hands the
request to the local handler, whose answer ends that reservation. A request that finds its key
reserved is answered from the record and has no other effect.

One machine runs both routes over one ledger. Whatever it sends, hands on or answers is posted.
What the other side answers, what the peers file holds and which sessions there are is up to the
environment. Address parsing is a parameter.
-/

namespace Telepty.Forward

open Infra Infra.Prog Mailbox Principal

/-- `net.isIP(host)` and `new URL(url).origin` -/
structure Addresses where
  isIP : Text → Nat
  originOf : Text → Except Failure Text

/-! ## What a request must be -/

def isOne : Option Json → Bool
  | some (.num 1) => true
  | _ => false

/-- `list.includes(t)`, where `list` is an array -/
def listIncludes (t : Text) : Option Json → Bool
  | some (.arr items) => items.any fun j => j.asText = some t
  | _ => false

/-- `Number.isInteger(v) && v >= lo && v <= hi` -/
def between (lo hi : Nat) : Option Json → Option Nat
  | some (.num n) => if lo ≤ n ∧ n ≤ hi then some n.toNat else none
  | _ => none

def plainOrAbsent (value : Option Json) : Bool := value.isNone || plainText 256 value

def boolOrAbsent : Option Json → Bool
  | none | some (.bool _) => true
  | _ => false

/-- `...(v ? { [name]: v } : {})` -/
def memberIfAny (name : Text) (value : Option Json) : List (Text × Json) :=
  value.toList.map fun v => (name, v)

def bodyFields : List Text :=
  ["prompt", "no_enter", "expected_epoch", "idempotency_key", "from", "reply_to"]

/-- `String(body.idempotency_key || '')` -/
def idempotencyKey (body : Json) : Text := coercedOrEmpty (body.field "idempotency_key")

/-- `validateBody(body)` -/
def validateBody (body : Json) : Except Failure Json :=
  match body with
  | .obj members =>
    if members.all (fun m => bodyFields.contains m.1) &&
        textWhere (fun t => byteLength t ≤ maxPayload) (body.field "prompt") &&
        plainText 128 (body.field "expected_epoch") && tokenText (idempotencyKey body) &&
        boolOrAbsent (body.field "no_enter") && plainOrAbsent (body.field "from") &&
        plainOrAbsent (body.field "reply_to") then
      .ok (.obj (([("prompt", .str (body.textField "prompt")),
        ("no_enter", .bool (isTrue (body.field "no_enter"))),
        ("expected_epoch", .str (body.textField "expected_epoch"))] : List (Text × Json)) ++
        memberIfAny "from" (body.field "from") ++ memberIfAny "reply_to" (body.field "reply_to")))
    else .error invalidRequest
  | _ => .error invalidRequest

structure Grant where
  maxRequests : Nat
  windowMs : Nat
  timeoutMs : Nat

/-- The limits of a grant, where they are in range. -/
def limitsOf (grant : Json) : Option Grant := do
  let maxRequests ← between 1 100 (grant.field "max_requests")
  let windowMs ← between 1000 86400000 (grant.field "window_ms")
  let timeoutMs ← between 100 10000 (grant.field "timeout_ms")
  pure ⟨maxRequests, windowMs, timeoutMs⟩

/-- `grantFor(peer, sid, payloadBytes)` -/
def grantFor (peer : Json) (sid : Text) (payloadBytes : Nat) : Except Failure Grant :=
  let grant := (peer.field "forwarding").getD .null
  if isTrue (grant.field "enabled") && listIncludes "inject" (grant.field "operations") &&
      listIncludes sid (grant.field "sessions") && isOne (grant.field "hop_limit") &&
      (between 1 maxPayload (grant.field "max_payload_bytes")).any (payloadBytes ≤ ·) then
    (limitsOf grant).elim (.error (failure "FORWARD_DENIED")) .ok
  else .error (failure "FORWARD_DENIED")

/-- `/^(?=.{1,253}$)[a-zA-Z0-9](?:[a-zA-Z0-9.-]*[a-zA-Z0-9])?$/` -/
def hostName (t : Text) : Bool :=
  t ≠ [] && t.length ≤ 253 && t.all (fun c => c.isAlphanum || c = '.' || c = '-') &&
    t.head?.any Char.isAlphanum && t.getLast?.any Char.isAlphanum

/-- `host` without the brackets around it. -/
def unbracketed (host : Text) : Text :=
  if host.head? = some '[' ∧ host.getLast? = some ']' then host.tail.dropLast else host

/-- `canonicalEndpoint(peer)` -/
def canonicalEndpoint (net : Addresses) (peer : Json) : Except Failure Text :=
  if textWhere (· = "http") (peer.field "transport") && plainText 253 (peer.field "host") &&
      plainText 4096 (peer.field "token") then
    match between 1 65535 (peer.field "port") with
    | none => .error (failure "PEER_UNAVAILABLE")
    | some port =>
      let host := unbracketed (peer.textField "host")
      if net.isIP host ≠ 0 ∨ hostName host then
        net.originOf ("http://" ++ (if net.isIP host = 6 then '[' :: host ++ [']'] else host) ++
          ':' :: natText port)
      else .error (failure "PEER_UNAVAILABLE")
  else .error (failure "PEER_UNAVAILABLE")

def isUnreserved (c : Char) : Bool :=
  c.isAlphanum || c = '-' || c = '_' || c = '.' || c = '!' || c = '~' || c = '*' || c = '\'' ||
    c = '(' || c = ')'

/-- `encodeURIComponent(t)` -/
def encodeURIComponent (t : Text) : Text :=
  t.flatMap fun c =>
    if isUnreserved c then [c]
    else (encodeChar c).flatMap fun b =>
      ['%', (Json.hexDigit (b.toNat / 16)).toUpper, (Json.hexDigit (b.toNat % 16)).toUpper]

/-! ## The machine -/

/-- A call of `fetchPeer`: what it sends where, the reservation it is sent for, and when. -/
structure Fetch where
  url : Text
  token : Text
  timeoutMs : Nat
  body : Json
  idempotencyKey : Text
  fingerprint : Text
  record : Json
  time : Nat

/-- What leaves a handler. -/
inductive Effect where
  | fetch (f : Fetch)
  /-- the request goes on to the local inject handler -/
  | pass (forwardingKey : Text) (record : Json)
  | reply (status : Nat) (body : Json)

/-- A call of `fetchPeer` that has not come back. -/
structure Waiting where
  record : Json
  sid : Text

structure Memory where
  active : List Text := []
  waiting : List Waiting := []
  /-- the reservations of the requests that the local handler has -/
  passed : List Json := []

variable (home : Path) (env : Env) (net : Addresses)

/-! ## Answers -/

/-- The status of the errors that have one. -/
def statusOf (code : Text) : Option Nat :=
  ([("FORWARD_INVALID_REQUEST", 400), ("FORWARD_STORAGE_UNAVAILABLE", 503),
    ("FORWARD_CAPACITY", 503), ("IDEMPOTENCY_CONFLICT", 409), ("PEER_UNKNOWN", 404),
    ("FORWARD_DENIED", 403), ("PEER_UNAVAILABLE", 403), ("FORWARD_BUDGET_EXCEEDED", 429),
    ("RECEIPT_NOT_FOUND", 404), ("SESSION_NOT_FOUND", 404),
    ("TARGET_EPOCH_MISMATCH", 409)] : List (Text × Nat)).lookup code

def refusal (code : Text) : Json := .obj [("success", .bool false), ("code", .str code)]

/-- `sendError(res, error)` -/
def sendError (e : Failure) : Effect :=
  match statusOf e.code with
  | some status => .reply status (refusal e.code)
  | none => .reply 503 (refusal "FORWARD_STORAGE_UNAVAILABLE")

/-- `v || null` -/
def orNull : Option Json → Json
  | none | some .null | some (.bool false) | some (.num 0) | some (.str []) => .null
  | some j => j

def isNull : Json → Bool
  | .null => true
  | _ => false

/-- `receiptResponse(record)` -/
def receiptResponse (record : Json) : Json :=
  let injectId := orNull (record.field "remote_inject_id")
  let routing := Json.obj (memberIfAny "peer" (record.field "peer") ++
    memberIfAny "session" (record.field "session") ++
    ([("remote_inject_id", injectId), ("verified_foreign_identity", .bool false)] :
      List (Text × Json)))
  spread record (([("success", .bool (recordState record = ("accepted" : Text))),
      ("verified_foreign_identity", .bool false)] : List (Text × Json)) ++
    memberIfAny "inject_id" (if isNull injectId then none else some injectId) ++
    memberIfAny "routing_receipt" (some routing))

/-- `record.remote_status || other` -/
def remoteStatus (record : Json) (other : Nat) : Nat :=
  if record.natField "remote_status" = 0 then other else record.natField "remote_status"

def isOpen (record : Json) : Bool :=
  recordState record = ("pending" : Text) || recordState record = ("outcome_unknown" : Text)

/-! ## The origin -/

/-- `POST /api/peers/:peer/sessions/:sid/inject`; `peers` is what `loadPeers().peers || {}` is, or
nothing where it throws. -/
structure SendRequest where
  peer : Text
  sid : Text
  body : Json
  peers : Option Json

def outboundKey (idempotencyKey : Text) : Text := hash ("outbound:" ++ idempotencyKey)

/-- The fingerprint of a request to a peer. -/
def outboundFingerprint (req : SendRequest) (origin : Text) (body : Json) : Text :=
  hash (Json.stringify (.obj [("peer", .str req.peer), ("endpoint", .str origin),
    ("sid", .str req.sid), ("body", body)]))

/-- The record counts against the budget of the peer. -/
def counts (peer : Text) (windowMs now : Nat) (record : Json) : Bool :=
  textOf (record.field "direction") = some "outbound" &&
    textOf (record.field "peer") = some peer &&
    match record.field "created_at" with
    | some (.num n) => now ≤ n + windowMs
    | _ => false

/-- The request of `fetchPeer`. -/
def forwardedBody (body : Json) (key : Text) : Json :=
  spread body [("exact_target", .bool true), ("claimed_cross_host", .bool true),
    ("forwarding", .obj [("hop", .num 1), ("key", .str key)])]

/-- What is checked before anything is read. -/
def admitted (req : SendRequest) : Except Failure (Json × Json × Grant × Text) :=
  if plainText 128 (some (.str req.peer)) && plainText 256 (some (.str req.sid)) then do
    let body ← validateBody req.body
    let peers ← req.peers.elim (.error (failure "TypeError")) Except.ok
    let peer ← (peers.field req.peer).elim (.error (failure "PEER_UNKNOWN")) Except.ok
    let grant ← grantFor peer req.sid (byteLength (body.textField "prompt"))
    let origin ← canonicalEndpoint net peer
    pure (body, peer, grant, origin)
  else .error invalidRequest

/-- `!existing && ledger.all().filter(…).length >= grant.max_requests` is an error. -/
def spend (peer : Text) (grant : Grant) (existing : Option Json) : Prog Memory Effect Unit :=
  if existing.isNone then do
    let records ← all home env
    let time ← now env
    if grant.maxRequests ≤ (records.filter (counts peer grant.windowMs time)).length then
      raise (failure "FORWARD_BUDGET_EXCEEDED")
    else pure ()
  else pure ()

/-- The answer from a record that was there. -/
def answerFrom (active : List Text) (record : Json) : Effect :=
  let shown := view active record
  .reply (if isOpen shown then 202 else remoteStatus shown 200) (receiptResponse shown)

/-- The members a reservation of the origin adds. -/
def outboundMetadata (req : SendRequest) (body : Json) : List (Text × Json) :=
  [("direction", .str "outbound"), ("peer", .str req.peer), ("session", .str req.sid),
    ("expected_epoch", .str (body.textField "expected_epoch"))]

/-- The call that the reservation was made for. -/
def dispatch (req : SendRequest) (body peer : Json) (grant : Grant) (origin fingerprint : Text)
    (record : Json) : Prog Memory Effect Unit := do
  let key := record.textField "receipt_id"
  modify fun s => { s with active := key :: s.active }
  let time ← now env
  post (.fetch {
    url := origin ++ "/api/forwarded/sessions/" ++ encodeURIComponent req.sid ++ "/inject"
    token := peer.textField "token"
    timeoutMs := grant.timeoutMs
    body := forwardedBody body key
    idempotencyKey := idempotencyKey req.body
    fingerprint := fingerprint
    record := record
    time := time })
  modify fun s => { s with waiting := s.waiting ++ [⟨record, req.sid⟩] }

/-- The handler of the origin up to the call of `fetchPeer`. -/
def send (req : SendRequest) : Prog Memory Effect Unit :=
  (do
    let (body, peer, grant, origin) ← ofExcept (admitted net req)
    let key := outboundKey (idempotencyKey req.body)
    let existing ← read home env key
    let fingerprint := outboundFingerprint req origin body
    spend home env req.peer grant existing
    let reserved ← reserve home env key fingerprint (outboundMetadata req body)
    if reserved.fresh then dispatch env req body peer grant origin fingerprint reserved.record
    else do
      let memory ← get
      post (answerFrom memory.active reserved.record) : Prog Memory Effect Unit).catching fun e =>
    post (sendError e)

/-- What a call of `fetchPeer` comes to: a response with a JSON body, or an error, which may say
that the connection was refused. -/
inductive Answer where
  | response (status : Nat) (remote : Json)
  | error (refused : Bool)

/-- `response.ok` -/
def isOk (status : Nat) : Bool := 200 ≤ status && status ≤ 299

/-- The receipt of the destination is one of this request. -/
def receiptValid (sid : Text) (remote : Json) : Bool :=
  isTrue (remote.field "success") && plainText 128 (remote.field "inject_id") &&
    textOf (remote.field "session_id") = some sid && isTrue (remote.field "exact_target")

def refusalCode (status : Nat) (remote : Json) : Text :=
  if status = 404 then "SESSION_NOT_FOUND"
  else if status = 409 ∧ textOf (remote.field "code") = some "TARGET_EPOCH_MISMATCH" then
    "TARGET_EPOCH_MISMATCH"
  else if status = 401 ∨ status = 403 then "PEER_AUTH_REFUSED"
  else "REMOTE_REFUSED"

/-- `{ ...pending, state: 'outcome_unknown', code }` -/
def unknownOutcome (record : Json) (code : Text) : Json :=
  spread record [("state", .str "outcome_unknown"), ("code", .str code)]

/-- The record that the answer ends the reservation with. -/
def outcomeOf (w : Waiting) : Answer → Json
  | .error true => spread w.record [("state", .str "failed"), ("remote_status", .num 503),
      ("code", .str "PEER_OFFLINE")]
  | .error false => unknownOutcome w.record "PEER_OUTCOME_UNKNOWN"
  | .response status remote =>
    if isOk status then
      if receiptValid w.sid remote then
        spread w.record [("state", .str "accepted"), ("remote_status", .num status),
          ("remote_inject_id", orNull (remote.field "inject_id")),
          ("remote_queued", .bool (isTrue (remote.field "queued") ||
            isTrue (remote.field "bootstrap_queued")))]
      else unknownOutcome w.record "PEER_OUTCOME_UNKNOWN"
    else if status = 409 ∧ isNull remote then unknownOutcome w.record "PEER_OUTCOME_UNKNOWN"
    else spread w.record [("state", .str (if 500 ≤ status then "outcome_unknown" else "failed")),
      ("remote_status", .num status), ("code", .str (refusalCode status remote))]

/-- `ledger.write(record)`, and whether it threw. -/
def stored (record : Json) : Prog Memory Effect Bool :=
  (write home env record false >>= fun _ => pure true).catching fun _ => pure false

/-- The rest of the handler of the origin, once the call has come back. -/
def answered (i : Nat) (answer : Answer) : Prog Memory Effect Unit := do
  match (← get).waiting[i]? with
  | none => pure ()
  | some w =>
    modify fun s => { s with waiting := s.waiting.eraseIdx i }
    let record := outcomeOf w answer
    let done ← stored home env record
    let memory ← get
    if done then
      post (.reply (if recordState record = ("outcome_unknown" : Text) then 202
        else remoteStatus record 200) (receiptResponse (view memory.active record)))
    else post (.reply 202 (receiptResponse (unknownOutcome w.record "FORWARD_STORAGE_UNAVAILABLE")))
    modify fun s => { s with active := s.active.erase (w.record.textField "receipt_id") }

/-- `GET /api/peers/forward-receipts/:key` -/
def query (key : Text) : Prog Memory Effect Unit :=
  (do
    if tokenText key then do
      let memory ← get
      match ← read home env (outboundKey key) with
      | some record =>
        if textOf (record.field "direction") = some "outbound" then
          post (.reply 200 (receiptResponse (view memory.active record)))
        else raise (failure "RECEIPT_NOT_FOUND")
      | none => raise (failure "RECEIPT_NOT_FOUND")
    else raise invalidRequest : Prog Memory Effect Unit).catching fun e => post (sendError e)

/-! ## The destination -/

/-- `POST /api/forwarded/sessions/:id/inject`; `sessions` are the sessions there are. -/
structure ForwardedRequest where
  id : Text
  body : Json
  sessions : Json

/-- The text of the forwarding key. -/
def forwardingKey (body : Json) : Text :=
  coercedOrEmpty ((body.field "forwarding").bind fun f => f.field "key")

def forwardedValid (body : Json) : Bool :=
  match body.field "forwarding" with
  | some (.obj members) =>
    isOne ((Json.obj members).field "hop") && digestText (forwardingKey body) &&
      members.all (fun m => m.1 = "hop" || m.1 = "key") && isTrue (body.field "exact_target") &&
      plainText 128 (body.field "expected_epoch") &&
      textWhere (fun t => byteLength t ≤ maxPayload) (body.field "prompt")
  | _ => false

def inboundKey (forwardingKey : Text) : Text := hash ("inbound:" ++ forwardingKey)

def inboundFingerprint (req : ForwardedRequest) : Text :=
  hash (Json.stringify (.obj (([("session", .str req.id),
    ("expected_epoch", .str (req.body.textField "expected_epoch")),
    ("prompt", .str (req.body.textField "prompt")),
    ("no_enter", .bool (isTrue (req.body.field "no_enter"))),
    ("from", orNull (req.body.field "from")), ("reply_to", orNull (req.body.field "reply_to"))] :
      List (Text × Json)) ++
    memberIfAny "key" ((req.body.field "forwarding").bind fun f => f.field "key"))))

def inboundMetadata (req : ForwardedRequest) : List (Text × Json) :=
  [("direction", .str "inbound"), ("session", .str req.id),
    ("expected_epoch", .str (req.body.textField "expected_epoch"))]

/-- What is checked before the forwarding key is reserved. -/
def targetValid (req : ForwardedRequest) : Except Failure Unit :=
  if forwardedValid req.body then
    match req.sessions.field req.id with
    | some (.obj session) =>
      if textOf ((Json.obj session).field "sessionEpoch") =
          some (req.body.textField "expected_epoch") then .ok ()
      else .error (failure "TARGET_EPOCH_MISMATCH")
    | _ => .error (failure "SESSION_NOT_FOUND")
  else .error invalidRequest

/-- The handler of the destination up to `next()`. -/
def forwarded (req : ForwardedRequest) : Prog Memory Effect Unit :=
  (do
    let _ ← ofExcept (targetValid req)
    let key := forwardingKey req.body
    let reserved ← reserve home env (inboundKey key) (inboundFingerprint req) (inboundMetadata req)
    if reserved.fresh then do
      modify fun s => { s with passed := s.passed ++ [reserved.record] }
      post (.pass key reserved.record)
    else do
      let memory ← get
      let shown := view memory.active reserved.record
      post (.reply (remoteStatus shown 202) (match shown.field "remote_receipt" with
        | some receipt => receipt
        | none => refusal "FORWARD_OUTCOME_UNKNOWN")) : Prog Memory Effect Unit).catching fun e =>
    post (sendError e)

def safeFields : List Text :=
  ["success", "inject_id", "session_id", "exact_target", "queued", "bootstrap_queued", "delivered",
    "code", "delivery_uncertain", "retryable"]

def isPlain : Json → Bool
  | .str _ | .bool _ | .num _ => true
  | _ => false

/-- `null`, or a number that is not negative. -/
def isByteCount : Json → Bool
  | .null => true
  | .num n => 0 ≤ n
  | _ => false

/-- The part of the local answer that is kept. -/
def safeReceipt (body : Json) : Json :=
  .obj (safeFields.filterMap (fun k => ((body.field k).filter isPlain).map fun v => (k, v)) ++
    memberIfAny "bytes_written" ((body.field "bytes_written").filter isByteCount) ++
    memberIfAny "submit" ((body.field "submit").filter fun v => v.asText = some "skipped"))

/-- The state that the local answer ends the reservation in. -/
def localState (statusCode : Nat) (body : Json) : Text :=
  if isTrue (body.field "delivery_uncertain") ∨
      textOf (body.field "code") = some "DELIVERY_UNCERTAIN" ∨ 500 ≤ statusCode then
    "outcome_unknown"
  else if isTrue (body.field "success") then "accepted"
  else "failed"

/-- `res.json(body)` of the local handler, with the status set before. -/
def answeredLocally (i statusCode : Nat) (body : Json) : Prog Memory Effect Unit := do
  match (← get).passed[i]? with
  | none => pure ()
  | some record =>
    let done ← stored home env (spread record [("state", .str (localState statusCode body)),
      ("remote_status", .num statusCode), ("remote_receipt", safeReceipt body)])
    if done then post (.reply statusCode body)
    else post (.reply 503 (refusal "FORWARD_STORAGE_UNAVAILABLE"))

/-! ## Runs -/

abbrev Node := Machine Memory Effect

inductive Event where
  | send (req : SendRequest)
  | answered (i : Nat) (answer : Answer)
  | query (key : Text)
  | forwarded (req : ForwardedRequest)
  | answeredLocally (i statusCode : Nat) (body : Json)
  | restart

def handle : Event → Prog Memory Effect Unit
  | .send req => send home env net req
  | .answered i answer => answered home env i answer
  | .query key => query home env key
  | .forwarded req => forwarded home env req
  | .answeredLocally i statusCode body => answeredLocally home env i statusCode body
  | .restart => modify fun _ => {}

/-- One event; what a process that died had in memory is gone. -/
def step (m : Node) (e : Event) : Node :=
  match handle home env net e m with
  | .done _ m' | .raised _ m' => m'
  | .crashed m' => { m' with mem := {} }

def run (m : Node) (es : List Event) : Node := es.foldl (step home env net) m

/-- The machine before the first event: a disk, and nothing else. -/
def fresh (fs : FS) : Node := ⟨{}, fs, 0, []⟩

end Telepty.Forward
