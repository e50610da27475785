import Mathlib.Data.Char
import Mathlib.Data.List.Lex
import Mathlib.Data.List.Sort
import Telepty.Infra.JsonRoundtrip
import Telepty.Infra.Sha256

/-!
# Interaction requests

What an interaction request has to look like, and when an observation of the session's prompt lets
it through. Requests, observations and bindings are JSON values. A check answers the reason of its
refusal, `none` when it passes, in the order of the source.
-/

namespace Telepty.Interaction

open Infra

/-! ## Names and bounds -/

/-- `Object.keys(KEYS)` -/
def keys : List Text :=
  ["up", "down", "left", "right", "tab", "shift-tab", "space", "enter", "escape", "home", "end",
    "backspace", "delete"]

def fenceFields : List Text :=
  ["sid", "session_epoch", "credential_generation", "owner_generation", "input_generation",
    "geometry_generation", "prompt_revision", "frame_digest", "surface_id", "cols", "rows"]

def refusals : List Text :=
  ["unsupported_capability", "stale_prompt", "wrong_owner", "wrong_attempt", "authority_required",
    "payload_conflict", "busy", "cancelled", "expired", "observation_unavailable", "write_failed",
    "outcome_unknown", "invalid_request", "storage_unavailable"]

def taskFields : List Text := ["task_id", "sandbox_attempt", "dispatch_id"]

def maxSafeInteger : Int := 9007199254740991

/-! ## Values -/

/-- `own(j, k)` -/
def own (j : Json) (k : Text) : Bool := (j.field k).isSome

/-- `j[k]`, `null` for `undefined`. -/
def member (j : Json) (k : Text) : Json := (j.field k).getD .null

/-- `a === b` for primitive values. -/
def same (a b : Option Json) : Bool := a.map Json.stringify = b.map Json.stringify

def isText (p : Text → Bool) (j : Json) : Bool := j.asText.any p

/-- `Number.isSafeInteger(j)` and at least `low`. -/
def safeFrom (low : Int) : Json → Bool
  | .num n => low ≤ n && n ≤ maxSafeInteger
  | _ => false

/-- `s.length`, in UTF-16 units. -/
def utf16Length (s : Text) : Nat := (s.map fun c => if c.toNat < 0x10000 then 1 else 2).sum

def byteLength (s : Text) : Nat := (encodeText s).length

def truthy : Json → Bool
  | .null => false
  | .bool b => b
  | .num n => n ≠ 0
  | .str s => s ≠ []
  | _ => true

def isTrue (j : Json) (k : Text) : Bool :=
  match j.field k with
  | some (.bool b) => b
  | _ => false

def isAlnum (c : Char) : Bool := c.toNat < 0x80 && c.isAlphanum

/-- `/^[A-Za-z0-9][A-Za-z0-9_.:-]{0,127}$/` -/
def idText : Text → Bool
  | [] => false
  | c :: rest =>
    isAlnum c && rest.length ≤ 127 && rest.all fun c => isAlnum c || c ∈ ['_', '.', ':', '-']

/-- `validId(j)` -/
def validId (j : Json) : Bool := isText idText j

/-- `/^[a-f0-9]{64}$/` -/
def hexDigest (j : Json) : Bool :=
  isText (fun s => s.length = 64 && s.all fun c => ('a' ≤ c && c ≤ 'f') || ('0' ≤ c && c ≤ '9')) j

/-- `/[\x00-\x1f\x7f-\x9f\u2028\u2029]/u` -/
def isControl (c : Char) : Bool :=
  c.toNat ≤ 0x1f || (0x7f ≤ c.toNat && c.toNat ≤ 0x9f) || c.toNat = 0x2028 || c.toNat = 0x2029

def oneOf (names : List Text) (j : Json) : Bool := isText (fun s => s ∈ names) j

/-! ## The digest -/

/-- The members by name; the names of a request that is admitted are ASCII. -/
def byName (members : List (Text × Text)) : List (Text × Text) :=
  members.insertionSort fun a b => a.1 ≤ b.1

mutual

def canonical : Json → Text
  | .arr items => '[' :: List.intercalate [','] (canonicalItems items) ++ [']']
  | .obj members =>
    '{' :: List.intercalate [','] ((byName (canonicalMembers members)).map fun e =>
      Json.quote e.1 ++ ':' :: e.2) ++ ['}']
  | v => v.stringify

def canonicalItems : List Json → List Text
  | [] => []
  | v :: vs => canonical v :: canonicalItems vs

def canonicalMembers : List (Text × Json) → List (Text × Text)
  | [] => []
  | (k, v) :: ms => (k, canonical v) :: canonicalMembers ms

end

def payloadDigest (text : Text) : Text := Sha256.hex (Sha256.digest (encodeText text))

def digest (value : Json) : Text := payloadDigest (canonical value)

/-! ## Requests -/

def schemaContainer (value : Json) (required optional : List Text) : Bool :=
  match value with
  | .obj members =>
    members.length ≤ required.length + optional.length &&
      (members.all fun e => e.1 ∈ required || e.1 ∈ optional) &&
      required.all fun k => own value k
  | _ => false

def requestFields : List Text :=
  ["schema_version", "action_id", "interaction_request_id", "identity", "expected", "operation",
    "value", "authority", "expires_at"]

def operations : List Text :=
  ["key", "text", "select", "toggle", "confirm", "cancel", "next", "back"]

/-- `typeof s === 'string' && s.length && s.length <= 256` -/
def shortText (j : Json) : Bool := isText (fun s => s ≠ [] && utf16Length s ≤ 256) j

def validateRequestStructure (r : Json) : Option Text :=
  let identity := member r "identity"
  let expected := member r "expected"
  let authority := member r "authority"
  let kind := identity.textField "kind"
  if !schemaContainer r requestFields ["pending_inject_id", "payload_digest"] then
    some "invalid_request"
  else if !schemaContainer identity ["kind", "sid"] taskFields
      || !schemaContainer expected (fenceFields ++ [("question_id" : Text)]) []
      || !schemaContainer authority ["provenance", "reference"] [] then some "invalid_request"
  else if !same (r.field "schema_version") (some (.num 1)) || !validId (member r "action_id")
      || !validId (member r "interaction_request_id") || !validId (member identity "sid")
      || !oneOf ["manual", "task"] (member identity "kind") then some "invalid_request"
  else if kind = "task" && ((taskFields.any fun k => !own identity k || !validId (member identity k))
      || !own r "pending_inject_id" || !validId (member r "pending_inject_id")) then
    some "wrong_attempt"
  else if kind = "manual" && taskFields.any (own identity) then some "wrong_attempt"
  else if own r "pending_inject_id" != own r "payload_digest" then some "invalid_request"
  else if own r "pending_inject_id" && (!validId (member r "pending_inject_id")
      || !hexDigest (member r "payload_digest")) then some "invalid_request"
  else if !oneOf ["controller-policy", "actual-human-decision"] (member authority "provenance")
      || !validId (member authority "reference") then some "authority_required"
  else if !oneOf operations (member r "operation") then some "unsupported_capability"
  else if !isText (fun s => byteLength s ≤ 4096) (member r "value") then some "invalid_request"
  else if r.textField "operation" = "text" && (r.textField "value").any isControl then
    some "unsupported_capability"
  else if r.textField "operation" = "key" && !oneOf keys (member r "value") then
    some "unsupported_capability"
  else if (["session_epoch", "owner_generation", "surface_id"] : List Text).any fun k =>
      !shortText (member expected k) then some "invalid_request"
  else if !shortText (member expected "prompt_revision")
      && !safeFrom 0 (member expected "prompt_revision") then some "invalid_request"
  else if !same (expected.field "sid") (identity.field "sid")
      || !validId (member expected "question_id") || !hexDigest (member expected "frame_digest") then
    some "invalid_request"
  else if (["credential_generation", "input_generation", "geometry_generation", "cols", "rows"] :
      List Text).any fun k => !safeFrom 0 (member expected k) then some "invalid_request"
  else if (["cols", "rows"] : List Text).any fun k => (member expected k).toNumber < 1
      || 1000 < (member expected k).toNumber then some "invalid_request"
  else if !safeFrom 0 (member r "expires_at") then some "invalid_request"
  else if 16384 < byteLength (canonical r) then some "invalid_request"
  else none

def validateRequest (r : Json) (now : Int) : Option Text :=
  match validateRequestStructure r with
  | some error => some error
  | none =>
    let expires := (member r "expires_at").toNumber
    if expires ≤ now ∨ now + 60000 < expires then some "expired" else none

/-! ## Observations -/

/-- `r.identity.sid` -/
def sidOf (r : Json) : Text := (member r "identity").textField "sid"

/-- `observation` and `binding` are `null` for a session that has none. -/
def validateObservation (r observation binding : Json) (now : Int) : Option Text :=
  let identity := member r "identity"
  let expected := member r "expected"
  if !truthy binding || !same (binding.field "sid") (identity.field "sid")
      || !truthy (member binding "session_epoch")
      || !same (binding.field "session_epoch") (expected.field "session_epoch") then
    some "wrong_owner"
  else if identity.textField "kind" = "task" && taskFields.any fun k =>
      !truthy (member binding k) || !same (binding.field k) (identity.field k) then
    some "wrong_attempt"
  else if !truthy observation || !isTrue observation "available"
      || !isTrue observation "current_frame"
      || observation.textField "provenance" ≠ "measured-provider" then some "observation_unavailable"
  else if !safeFrom (-maxSafeInteger) (member observation "expires_at")
      || (member observation "expires_at").toNumber ≤ now then some "expired"
  else if fenceFields.any fun k => !same (observation.field k) (expected.field k) then
    some "stale_prompt"
  else if (["sid", "session_epoch", "credential_generation", "owner_generation",
      "input_generation", "geometry_generation", "surface_id", "cols", "rows"] : List Text).any
      fun k => !same (binding.field k) (observation.field k) then some "wrong_owner"
  else if !same (observation.field "question_id") (expected.field "question_id") then
    some "stale_prompt"
  else if !((member observation "supported_operations").asList.any fun ops =>
      ops.any fun op => same (some op) (r.field "operation")) then some "unsupported_capability"
  else if oneOf ["permission_trust", "authentication_bootstrap_failure", "unknown", "running"]
      (member observation "mode") then some "authority_required"
  else if !isTrue observation "routine"
      || (member r "authority").textField "provenance" ≠ "controller-policy" then
    some "authority_required"
  else if r.textField "operation" = "text" && observation.textField "mode" ≠ "text_response" then
    some "unsupported_capability"
  else if (r.textField "operation" = "select" || r.textField "operation" = "toggle")
      && !((member observation "option_ids").asList.any fun ids =>
        ids.any fun id => same (some id) (r.field "value")) then some "stale_prompt"
  else none

end Telepty.Interaction
