import Telepty.Infra.Utf16
import Telepty.Interaction.Request
import Telepty.Mailbox.Custody

/-!
# Signed assertions

A request proves who sent it by an assertion: a canonical JSON document in base64url with an Ed25519
signature over it. The verifier checks the document, its clock window, every binding to the request
and the signature, looks the grant up, and keeps the nonce until the assertion has expired, so that
it is not taken a second time. The signature primitive is a parameter.
-/

namespace Telepty.Principal

open Infra Mailbox
open Interaction (utf16Length)

/-! ## Canonical JSON -/

/-- The double nearest to `n`, ties to even. -/
def roundDouble (n : Nat) : Nat :=
  if n < 2 ^ 53 then n
  else
    let ulp := 2 ^ (n.log2 - 52)
    if ulp < 2 * (n % ulp) ∨ (2 * (n % ulp) = ulp ∧ n / ulp % 2 = 1) then (n / ulp + 1) * ulp
    else n / ulp * ulp

/-- The decimal with `j` zeros at its end that reads back as the double `v`, the nearer one. -/
def decimalAt (v j : Nat) : Option Nat :=
  let lo := v / 10 ^ j * 10 ^ j
  let hi := (v / 10 ^ j + 1) * 10 ^ j
  if roundDouble lo = v ∧ (roundDouble hi ≠ v ∨ v - lo < hi - v ∨
      (v - lo = hi - v ∧ v / 10 ^ j % 2 = 0)) then some lo
  else if roundDouble hi = v then some hi
  else none

/-- The decimal with the fewest digits that reads back as the double `v`. -/
def shortestDecimal (v : Nat) : Nat :=
  ((List.range (natText v).length).reverse.findSome? (decimalAt v)).getD v

/-- `JSON.stringify(n)` for a number read from the digits of `n`. -/
def numberText (n : Int) : Text :=
  let v := shortestDecimal (roundDouble n.natAbs)
  let digits := natText v
  let body := if v < 10 ^ 21 then digits
    else
      let tail := (digits.drop 1).reverse.dropWhile (· = '0') |>.reverse
      digits.take 1 ++ (if tail = [] then [] else '.' :: tail) ++ ("e+" : Text) ++
        natText (digits.length - 1)
  if n < 0 then '-' :: body else body

/-- `a <= b` as `sort` compares texts. -/
def unitsBefore : Units → Units → Bool
  | [], _ => true
  | _ :: _, [] => false
  | a :: as, b :: bs => a < b || (a = b && unitsBefore as bs)

/-- `values.join(',')` -/
def joinComma : List Text → Text
  | [] => []
  | [t] => t
  | t :: ts => t ++ ',' :: joinComma ts

mutual

def canonicalText : Json → Text
  | .null => "null"
  | .bool b => if b then "true" else "false"
  | .num n => numberText n
  | .str s => Json.quote s
  | .arr items => '[' :: joinComma (canonicalItems items) ++ [']']
  | .obj members =>
    let sorted := (canonicalMembers members).insertionSort fun a b =>
      unitsBefore (codeUnits a.1) (codeUnits b.1)
    '{' :: joinComma (sorted.map fun m => Json.quote m.1 ++ ':' :: m.2) ++ ['}']

def canonicalItems : List Json → List Text
  | [] => []
  | x :: xs => canonicalText x :: canonicalItems xs

def canonicalMembers : List (Text × Json) → List (Text × Text)
  | [] => []
  | (k, v) :: ms => (k, canonicalText v) :: canonicalMembers ms

end

/-- `canonicalJSON(value)`, `none` where it throws. -/
def canonicalJSON (j : Json) : Option Text :=
  if nodes j ≤ 4096 ∧ depth j ≤ 32 ∧ byteLength (canonicalText j) ≤ maxJsonBytes then
    some (canonicalText j)
  else none

/-! ## base64url -/

def base64Char (n : Nat) : Char :=
  if n < 26 then Char.ofNat (0x41 + n)
  else if n < 52 then Char.ofNat (0x61 + (n - 26))
  else if n < 62 then Char.ofNat (0x30 + (n - 52))
  else if n = 62 then '-'
  else '_'

def base64Value (c : Char) : Nat :=
  if c.isUpper then c.toNat - 0x41
  else if c.isLower then c.toNat - 0x61 + 26
  else if c.isDigit then c.toNat - 0x30 + 52
  else if c = '-' then 62
  else 63

/-- `bytes.toString('base64url')` -/
def base64url : Bytes → Text
  | [] => []
  | [a] => [base64Char (a.toNat / 4), base64Char (a.toNat % 4 * 16)]
  | [a, b] =>
    [base64Char (a.toNat / 4), base64Char (a.toNat % 4 * 16 + b.toNat / 16),
      base64Char (b.toNat % 16 * 4)]
  | a :: b :: c :: rest =>
    base64Char (a.toNat / 4) :: base64Char (a.toNat % 4 * 16 + b.toNat / 16) ::
      base64Char (b.toNat % 16 * 4 + c.toNat / 64) :: base64Char (c.toNat % 64) :: base64url rest

/-- `Buffer.from(text, 'base64url')` for a text of the alphabet; a single character at the end
holds no byte. -/
def fromBase64url : Text → Bytes
  | [] | [_] => []
  | [a, b] => [UInt8.ofNat (base64Value a * 4 + base64Value b / 16)]
  | [a, b, c] =>
    [UInt8.ofNat (base64Value a * 4 + base64Value b / 16),
      UInt8.ofNat (base64Value b % 16 * 16 + base64Value c / 4)]
  | a :: b :: c :: d :: rest =>
    UInt8.ofNat (base64Value a * 4 + base64Value b / 16) ::
      UInt8.ofNat (base64Value b % 16 * 16 + base64Value c / 4) ::
      UInt8.ofNat (base64Value c % 4 * 64 + base64Value d) :: fromBase64url rest

/-- `/^[A-Za-z0-9_-]+$/.test(text)` -/
def isBase64url (t : Text) : Bool :=
  t ≠ [] && t.all fun c => c.isAlphanum || c = '_' || c = '-'

/-! ## The document -/

/-- `/^[A-Za-z0-9][A-Za-z0-9._-]{0,127}$/` -/
def identifier (t : Text) : Bool :=
  match t with
  | [] => false
  | c :: rest => c.isAlphanum && rest.length ≤ 127 &&
      rest.all fun c => c.isAlphanum || c = '.' || c = '_' || c = '-'

def isBlankOrControl (c : Char) : Bool := c.toNat ≤ 0x20 || c.toNat = 0x7F

/-- `opaque(value)` -/
def opaqueText (t : Text) : Bool := t ≠ [] && byteLength t ≤ 256 && !t.any isBlankOrControl

/-- `/^[a-z][a-z0-9_.-]{0,63}$/` -/
def actionName (t : Text) : Bool :=
  match t with
  | [] => false
  | c :: rest => c.isLower && rest.length ≤ 63 &&
      rest.all fun c => c.isLower || c.isDigit || c = '_' || c = '.' || c = '-'

/-- `/^[A-Z]{3,16}$/` -/
def methodName (t : Text) : Bool := 3 ≤ t.length && t.length ≤ 16 && t.all Char.isUpper

/-- `/^[A-Za-z0-9_-]{16,128}$/` -/
def tokenText (t : Text) : Bool :=
  16 ≤ t.length && t.length ≤ 128 && t.all fun c => c.isAlphanum || c = '_' || c = '-'

/-- `/^[a-f0-9]{64}$/` -/
def digestText (t : Text) : Bool :=
  t.length = 64 && t.all fun c => c.isDigit || ('a' ≤ c && c ≤ 'f')

mutual

/-- `String(value)` -/
def coerced : Json → Text
  | .null => "null"
  | .bool b => if b then "true" else "false"
  | .num n => numberText n
  | .str s => s
  | .arr items => joinComma (coercedItems items)
  | .obj _ => "[object Object]"

/-- The items of an array as `String` joins them: `null` is empty there. -/
def coercedItems : List Json → List Text
  | [] => []
  | .null :: xs => [] :: coercedItems xs
  | x :: xs => coerced x :: coercedItems xs

end

/-- `String(value || '')` -/
def coercedOrEmpty : Option Json → Text
  | none | some .null | some (.bool false) | some (.num 0) => []
  | some j => coerced j

/-- `%xx` replaced by its byte. -/
def percentDecode : Bytes → Bytes
  | [] => []
  | [b] => [b]
  | [b, c] => [b, c]
  | b :: h :: l :: tail =>
    if b = 0x25 then
      match Json.hexValue (Char.ofNat h.toNat), Json.hexValue (Char.ofNat l.toNat) with
      | some x, some y => UInt8.ofNat (x * 16 + y) :: percentDecode tail
      | _, _ => b :: percentDecode (h :: l :: tail)
    else b :: percentDecode (h :: l :: tail)

/-- The names in `new URLSearchParams(query)`, in order. -/
def searchNames (query : Text) : List Text :=
  let query := match query with
    | '?' :: rest => rest
    | query => query
  ((query.splitOn '&').filter (· ≠ [])).map fun part =>
    decodeText (percentDecode (encodeText ((part.takeWhile (· ≠ '=')).map fun c =>
      if c = '+' then ' ' else c)))

/-- `c.toLowerCase()` as far as the result is an ASCII letter: `A` to `Z` and the Kelvin sign. -/
def lowerChar (c : Char) : Char :=
  if c.isUpper then Char.ofNat (c.toNat + 32)
  else if c.toNat = 0x212A then 'k'
  else c

def credentialNames : List Text := ["token", "access_token", "authorization", "owner_token"]

/-- `validTarget(target)` -/
def validTarget (t : Text) : Bool :=
  utf16Length t ≤ 4096 && t.head? = some '/' && t.take 2 ≠ ['/', '/'] &&
    !t.any (fun c => c = '\\' || c = '#' || isBlankOrControl c) &&
    (searchNames ((t.dropWhile (· ≠ '?')).drop 1)).Nodup &&
    (searchNames ((t.dropWhile (· ≠ '?')).drop 1)).all fun k =>
      !credentialNames.contains (k.map lowerChar)

def documentFields : List Text :=
  ["v", "key_id", "principal_id", "audience", "method", "target", "action", "transport",
    "body_sha256", "challenge", "nonce", "issued_at", "expires_at", "session_epoch"]

def textOf (value : Option Json) : Option Text := value.bind Json.asText

def textWhere (p : Text → Bool) (value : Option Json) : Bool := (textOf value).any p

def intOf : Option Json → Option Int
  | some (.num n) => if -maxSafeInteger ≤ n ∧ n ≤ maxSafeInteger then some n else none
  | _ => none

/-- `document.issued_at`, where it is a safe integer. -/
def issuedAt (d : Json) : Option Int := intOf (d.field "issued_at")

/-- `document.expires_at`, where it is a safe integer. -/
def expiresAt (d : Json) : Option Int := intOf (d.field "expires_at")

def windowValid (d : Json) : Bool :=
  match issuedAt d, expiresAt d with
  | some i, some e => 0 ≤ i && i < e && e - i ≤ 60
  | _, _ => false

/-- `documentValid(document)` -/
def documentValid (d : Json) : Bool :=
  fieldsIn documentFields d && d.isObject &&
    intOf (d.field "v") = some 1 && textWhere identifier (d.field "key_id") &&
    textWhere identifier (d.field "principal_id") && textWhere opaqueText (d.field "audience") &&
    textWhere methodName (d.field "method") && textWhere validTarget (d.field "target") &&
    textWhere actionName (d.field "action") &&
    textWhere (fun t => t = ("http" : Text) || t = ("websocket" : Text)) (d.field "transport") &&
    digestText (coercedOrEmpty (d.field "body_sha256")) &&
    tokenText (coercedOrEmpty (d.field "challenge")) &&
    tokenText (coercedOrEmpty (d.field "nonce")) && windowValid d &&
    (d.field "session_epoch" = none ||
      textWhere (fun t => t ≠ [] && utf16Length t ≤ 128) (d.field "session_epoch"))

/-! ## Trust -/

structure Grant where
  action : Text
  targets : List Text

/-- A trusted key; `κ` is the public key itself. -/
structure Key (κ : Type) where
  id : Text
  authority : Text
  publicKey : κ
  grants : List Grant

structure Trust (κ : Type) where
  audience : Text
  keys : OrdMap Text (Key κ)
  actions : List Text

/-- What the request is, as the route tells it. -/
structure Binding where
  method : Text
  target : Text
  bodySha256 : Text
  action : Text
  grantTarget : Text
  transport : Option Text
  sessionEpoch : Option Text

/-- `binding.transport || 'http'` -/
def Binding.transportOrHttp (b : Binding) : Text :=
  match b.transport with
  | none | some [] => "http"
  | some t => t

/-! ## The verifier -/

/-- `Math.floor(now() / 1000)`: a number of seconds, or what is no integer. -/
inductive Seconds where
  | notANumber
  | negativeInfinity
  | positiveInfinity
  | sec (n : Int)
  deriving DecidableEq

namespace Seconds

/-- `a < b` -/
def less : Seconds → Seconds → Bool
  | .sec a, .sec b => a < b
  | .negativeInfinity, .sec _ | .negativeInfinity, .positiveInfinity
  | .sec _, .positiveInfinity => true
  | _, _ => false

/-- The reading, where it is a safe integer. -/
def safe? : Seconds → Option Int
  | .sec n => if -maxSafeInteger ≤ n ∧ n ≤ maxSafeInteger then some n else none
  | _ => none

end Seconds

/-- What `createPrincipalVerifier` is given: the clock is read call by call. -/
structure Verifier (κ : Type) where
  trust : Trust κ
  challenge : Text
  replayCapacity : Nat
  /-- `crypto.verify(null, message, publicKey, signature)` -/
  verifySignature : κ → Bytes → Bytes → Bool

/-- What it keeps between calls. -/
structure Memory where
  latestClock : Seconds
  replay : OrdMap Text Int

structure AuthPrincipal where
  id : Text
  keyId : Text
  authority : Text
  source : Text
  audience : Text
  deriving DecidableEq

structure Acceptance where
  principal : AuthPrincipal
  action : Text
  target : Text
  sessionEpoch : Option Text
  expiresAt : Int
  deriving DecidableEq

inductive Verdict where
  | denied (code : Text) (status : Nat)
  | accepted (acceptance : Acceptance)
  deriving DecidableEq

/-- `deny()` -/
def invalid : Verdict := .denied "PRINCIPAL_PROOF_INVALID" 401

/-- One call; `now` is `none` where the clock throws, `consume` tells `verify` from `inspect`. -/
structure Call where
  header : Option Text
  binding : Option Binding
  now : Option Seconds
  consume : Bool

/-- `createPrincipalVerifier(options)`, `none` where it throws. -/
def createPrincipalVerifier {κ : Type} (v : Verifier κ) (now : Option Seconds) : Option Memory :=
  if tokenText v.challenge ∧ 1 ≤ v.replayCapacity ∧ v.replayCapacity ≤ 65536 then
    now.map fun s => ⟨s, .empty⟩
  else none

def schemeText : Text := "v1"

def domain : Text := "telepty.principal-assertion/v1\n"

/-- The document, its canonical text and the signature a header carries. -/
structure Assertion where
  document : Json
  encoded : Text
  signature : Bytes

/-- What a header carries, `none` where its form alone denies it. -/
def readAssertion (header : Text) : Option Assertion :=
  if 8192 < utf16Length header then none
  else match header.splitOn '.' with
    | [scheme, payloadText, signatureText] =>
      let payload := fromBase64url payloadText
      let signature := fromBase64url signatureText
      if scheme = schemeText ∧ isBase64url payloadText ∧ isBase64url signatureText ∧
          signatureText.length = 86 ∧ base64url payload = payloadText ∧
          base64url signature = signatureText ∧ signature.length = 64 ∧
          encodeText (decodeText payload) = payload then
        (parseUnambiguousJSON (decodeText payload)).bind fun document =>
          (canonicalJSON document).bind fun encoded =>
            if encoded = decodeText payload ∧ documentValid document then
              some ⟨document, encoded, signature⟩
            else none
      else none
    | _ => none

variable {κ : Type}

/-- The key, the binding, the window and the signature, at the clock `at_`. -/
def bindingHolds (v : Verifier κ) (a : Assertion) (b : Binding) (at_ : Int) (key : Key κ) : Bool :=
  a.document.textField "principal_id" = key.id &&
    a.document.textField "audience" = v.trust.audience &&
    textOf (a.document.field "challenge") = some v.challenge &&
    (issuedAt a.document).any (· ≤ at_) && (expiresAt a.document).any (at_ < ·) &&
    a.document.textField "method" = b.method && a.document.textField "target" = b.target &&
    a.document.textField "action" = b.action &&
    a.document.textField "transport" = b.transportOrHttp &&
    textOf (a.document.field "body_sha256") = some b.bodySha256 &&
    b.sessionEpoch.all (fun e => textOf (a.document.field "session_epoch") = some e) &&
    v.verifySignature key.publicKey (encodeText (domain ++ a.encoded)) a.signature

def Grant.covers (key : Key κ) (b : Binding) (g : Grant) : Bool :=
  g.action = b.action && (g.targets.contains b.grantTarget ||
    (key.authority = ("operator" : Text) && g.targets.contains ['*']))

/-- `${document.key_id}:${document.nonce}` -/
def nonceKey (d : Json) : Text :=
  d.textField "key_id" ++ ':' :: coercedOrEmpty (d.field "nonce")

def principalOf (v : Verifier κ) (key : Key κ) (d : Json) : AuthPrincipal :=
  ⟨key.id, d.textField "key_id", key.authority, "ed25519", v.trust.audience⟩

def acceptanceOf (v : Verifier κ) (key : Key κ) (b : Binding) (d : Json) : Acceptance where
  principal := principalOf v key d
  action := b.action
  target := b.grantTarget
  sessionEpoch := textOf (d.field "session_epoch")
  expiresAt := (expiresAt d).getD 0 * 1000

/-- The replay entries that have not expired at `at_`. -/
def pruned (replay : OrdMap Text Int) (at_ : Int) : OrdMap Text Int :=
  replay.filter fun e => at_ < e.2

/-- The grant and the replay memory, once the assertion is known to be genuine and current. -/
def grantAndConsume (v : Verifier κ) (m : Memory) (a : Assertion) (b : Binding) (at_ : Int) (key : Key κ)
    (consume : Bool) : Verdict × Memory :=
  if key.grants.any (Grant.covers key b) then
    let m := { m with replay := pruned m.replay at_ }
    if m.replay.has (nonceKey a.document) then (.denied "PRINCIPAL_REPLAY" 409, m)
    else if v.replayCapacity ≤ m.replay.size then (.denied "PRINCIPAL_REPLAY_CAPACITY" 503, m)
    else (.accepted (acceptanceOf v key b a.document),
      if consume then
        { m with replay := m.replay.set (nonceKey a.document) ((expiresAt a.document).getD 0) }
      else m)
  else (.denied "PRINCIPAL_GRANT_DENIED" 403, m)

/-- `check(header, binding, consume)`: the verdict and what is kept. -/
def check (v : Verifier κ) (m : Memory) (c : Call) : Verdict × Memory :=
  match c.header, c.binding with
  | some header, some b =>
    if v.trust.actions.contains b.action then
      match readAssertion header with
      | none => (invalid, m)
      | some a =>
        match c.now with
        | none => (invalid, m)
        | some now =>
          match now.safe? with
          | none => (.denied "PRINCIPAL_CLOCK_UNSAFE" 503, m)
          | some at_ =>
            if now.less m.latestClock then (.denied "PRINCIPAL_CLOCK_UNSAFE" 503, m)
            else
              let m := { m with latestClock := now }
              match v.trust.keys.get? (a.document.textField "key_id") with
              | none => (invalid, m)
              | some key =>
                if bindingHolds v a b at_ key then grantAndConsume v m a b at_ key c.consume
                else (invalid, m)
    else (invalid, m)
  | _, _ => (invalid, m)

end Telepty.Principal
