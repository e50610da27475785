import Telepty.Session.Record

/-!
# Handoffs and takeovers in a record

The audit of the mailbox takeovers of a session and the cooperative handoff that it went through, as
they stand in its record: when they are well formed, and what a restart makes of them.
-/

namespace Telepty.Registry

open Infra
open Interaction (truthy own member byteLength utf16Length)
open Principal (coerced coercedOrEmpty identifier)

/-- `/^[A-Za-z0-9_-]{22}$/` -/
def isEpoch (t : Text) : Bool :=
  t.length = 22 && t.all fun c => c.isAlphanum || c = '_' || c = '-'

/-! ## The takeover audit -/

/-- `MAX_AUTHORITY_EVENTS` -/
def maxAuthorityEvents : Nat := 32

def authorityFields : List Text :=
  ["schema", "actor", "at", "previous_epoch", "next_epoch", "previous_generation",
    "next_generation", "previous_owner_state", "previous_lease_expires_at", "pending_count",
    "custody_digest"]

def actorFields : List Text := ["id", "key_id", "source", "audience"]

/-- The members of an object are among the fields. -/
def keysWithin (fields : List Text) : Json → Bool
  | .obj members => members.all fun e => e.1 ∈ fields
  | _ => false

def textWhere (p : Text → Bool) (value : Option Json) : Bool := (value.bind Json.asText).any p

def isNumber : Option Json → Bool
  | some (.num _) => true
  | _ => false

/-- `/re/.test(value || '')` -/
def coercedWhere (p : Text → Bool) (value : Option Json) : Bool := p (coercedOrEmpty value)

def isHex64 (value : Option Json) : Bool :=
  coercedWhere (fun t => t.length = 64 && t.all fun c => c.isDigit || ('a' ≤ c && c ≤ 'f')) value

/-- One follows the other. -/
def isSuccessor (value next : Option Json) : Bool :=
  match value, next with
  | some (.num n), some (.num m) => m = n + 1
  | _, _ => false

/-- The actor of a takeover. -/
def actorValid (actor : Json) : Bool :=
  keysWithin actorFields actor && textWhere identifier (actor.field "id") &&
    textWhere identifier (actor.field "key_id") && isTextIn ["ed25519"] (actor.field "source") &&
    textWhere (· ≠ []) (actor.field "audience")

/-- A row that `normalizeAuthorityAudit` lets through; `isDate t` is
`Number.isFinite(Date.parse(t))`. -/
def authorityRowValid (isDate : Text → Bool) (row : Json) : Bool :=
  keysWithin authorityFields row &&
    isTextIn ["telepty.mailbox-takeover/v1"] (row.field "schema") &&
    (row.field "actor").any actorValid && (row.field "at").any (fun v => isDate (coerced v)) &&
    coercedWhere isEpoch (row.field "previous_epoch") &&
    coercedWhere isEpoch (row.field "next_epoch") &&
    intWithin 1 Interaction.maxSafeInteger (row.field "previous_generation") &&
    intWithin 1 Interaction.maxSafeInteger (row.field "next_generation") &&
    isSuccessor (row.field "previous_generation") (row.field "next_generation") &&
    isTextIn ["mailbox_lease_expired"] (row.field "previous_owner_state") &&
    isNumber (row.field "previous_lease_expires_at") &&
    intWithin 0 1000 (row.field "pending_count") && isHex64 (row.field "custody_digest")

/-- The members of an object in the order of the fields. -/
def pick (fields : List Text) (value : Json) : Json :=
  .obj (fields.map fun k => (k, member value k))

/-- The row that `normalizeAuthorityAudit` puts out. -/
def authorityRow (row : Json) : Json :=
  .obj (authorityFields.map fun k =>
    (k, if k = "actor" then pick actorFields (member row "actor") else member row k))

/-- `normalizeAuthorityAudit(value)`: `none` for `null`, `some none` for `undefined`. -/
def normalizeAuthorityAudit (isDate : Text → Bool) (value : Option Json) :
    Option (Option (List Json)) :=
  match value with
  | none => some none
  | some (.arr rows) =>
    if rows.length ≤ maxAuthorityEvents ∧ rows.all (authorityRowValid isDate) then
      some (some (rows.map authorityRow))
    else none
  | some _ => none

theorem lookup_map_fields (k : Text) (f : Text → Json) (fields : List Text) :
    Json.lookup k (fields.map fun k => (k, f k)) = if k ∈ fields then some (f k) else none := by
  induction fields with
  | nil => rfl
  | cons a fields ih =>
    rw [List.map_cons, Json.lookup, ih]
    by_cases hk : k ∈ fields
    · rw [if_pos hk, if_pos (List.mem_cons_of_mem a hk)]
    · rw [if_neg hk]
      by_cases ha : a = k
      · subst ha
        rw [if_pos List.mem_cons_self]
        exact if_pos rfl
      · rw [if_neg fun h => (List.mem_cons.mp h).elim (fun h => ha h.symm) hk]
        exact if_neg ha

theorem member_map_fields {k : Text} {f : Text → Json} {fields : List Text} (h : k ∈ fields) :
    member (.obj (fields.map fun k => (k, f k))) k = f k := by
  show (Json.lookup k _).getD .null = _
  rw [lookup_map_fields, if_pos h, Option.getD_some]

theorem pick_pick (fields : List Text) (value : Json) :
    pick fields (pick fields value) = pick fields value := by
  refine congrArg Json.obj (List.map_congr_left fun k hk => ?_)
  rw [pick, member_map_fields hk]

/-- A row that was put out is put out as it is. -/
theorem authorityRow_authorityRow (row : Json) : authorityRow (authorityRow row) = authorityRow row := by
  refine congrArg Json.obj (List.map_congr_left fun k hk => ?_)
  have hmember : ∀ k ∈ authorityFields, member (authorityRow row) k
      = if k = "actor" then pick actorFields (member row "actor") else member row k :=
    fun k hk => member_map_fields hk
  have hactor : ("actor" : Text) ∈ authorityFields := by decide
  rw [hmember k hk, hmember _ hactor, if_pos rfl, pick_pick]
  split <;> rfl

/-! ## Handoffs -/

/-- `activeHandoff(session)` -/
def activeHandoff (r : SessionRecord) : Bool :=
  r.cooperativeHandoff.any fun h => truthy h && !isTextIn ["committed", "refused"] (h.field "state")

/-- The texts of an array that holds nothing else. -/
def textsOf (value : Option Json) : Option (List Text) :=
  (value.bind Json.asList).bind fun items => items.mapM Json.asText

/-- `messageId(value)` -/
def isMessageId (t : Text) : Bool :=
  t ≠ [] && byteLength t ≤ 128 && !t.any fun c => c.toNat ≤ 0x1F || c.toNat = 0x7F

/-- The id of a row of `pending_records`, where the row is well formed. -/
def pendingRowId (row : Json) : Option Text :=
  match row with
  | .obj [_, _] =>
    if (row.field "digest").any Interaction.hexDigest then ((row.field "id").bind Json.asText).filter isMessageId
    else none
  | _ => none

/-- `bodyDigest([])` -/
def emptyDigest : Text := Sha256.hex (Sha256.digest (encodeText "[]"))

/-- `validPendingAudit(value)` -/
def validPendingAudit (value : Json) : Bool :=
  match value.field "pending_policy" with
  | none =>
    (["pending_custody_schema", "pending_count", "pending_digest", "pending_records",
      "pending_dispatch_started", "pending_write_invoked"] : List Text).all fun k => !own value k
  | some policy =>
    let rows := ((value.field "pending_records").bind Json.asList).bind fun rows =>
      rows.mapM pendingRowId
    let started := textsOf (value.field "pending_dispatch_started")
    let invoked := textsOf (value.field "pending_write_invoked")
    isTextIn ["telepty.pending-handoff-custody/v1"] (value.field "pending_custody_schema") &&
      isTextIn ["empty", "never-attempted"] (some policy) &&
      intWithin 0 8 (value.field "pending_count") && (value.field "pending_digest").any Interaction.hexDigest &&
      (rows.any fun ids => intWithin ids.length ids.length (value.field "pending_count") &&
        ids.Nodup &&
        (!own value "pending_dispatch_started" ||
          started.any fun l => l.Nodup && l.all fun id => id ∈ ids)) &&
      (!isTextIn ["empty"] (some policy) ||
        (intWithin 0 0 (value.field "pending_count") &&
          isTextIn [emptyDigest] (value.field "pending_digest"))) &&
      (!own value "pending_write_invoked" ||
        invoked.any fun l => l.Nodup && l.all fun id => started.any fun s => id ∈ s)

/-- `pendingNamespaceReserved(session, mailbox)`, where `acknowledged` is what the mailbox says of
the transferred messages. -/
def pendingNamespaceReserved (acknowledged : Bool) (r : SessionRecord) : Bool :=
  match r.cooperativeHandoff with
  | none => false
  | some event =>
    if isTextIn ["committed"] (event.field "state") = false ∨
        intWithin 1 Interaction.maxSafeInteger (event.field "pending_count") = false then false
    else if (event.field "next_epoch").bind Json.asText ≠ r.sessionEpoch ∨
        validPendingAudit event = false ∨
        ((((event.field "pending_records").bind Json.asList).getD []).all fun row =>
          (textsOf (event.field "pending_write_invoked")).any fun l =>
            ((row.field "id").bind Json.asText).any fun id => id ∈ l) = false then true
    else !acknowledged

/-- `/^[a-f0-9]{8}-[a-f0-9]{4}-4[a-f0-9]{3}-[89ab][a-f0-9]{3}-[a-f0-9]{12}$/` -/
def isUuid4 (t : Text) : Bool :=
  t.length = 36 && (t.zipIdx.all fun e =>
    if e.2 ∈ [8, 13, 18, 23] then e.1 = '-'
    else if e.2 = 14 then e.1 = '4'
    else if e.2 = 19 then e.1 ∈ ['8', '9', 'a', 'b']
    else e.1.isDigit || ('a' ≤ e.1 && e.1 ≤ 'f'))

def handoffFields : List Text :=
  ["schema", "id", "state", "epoch", "generation", "owner_generation", "actor", "at", "expires_at",
    "next_epoch", "exit_code", "exit_signal", "completed_at", "pending_custody_schema",
    "pending_policy", "pending_count", "pending_digest", "pending_records",
    "pending_dispatch_started", "pending_write_invoked"]

def handoffActorValid (actor : Json) : Bool :=
  keysWithin actorFields actor && textWhere identifier (actor.field "id") &&
    textWhere identifier (actor.field "key_id") && isTextIn ["ed25519"] (actor.field "source") &&
    textWhere (fun t => t ≠ [] && utf16Length t ≤ 256 &&
      !t.any fun c => c.toNat ≤ 0x20 || c.toNat = 0x7F) (actor.field "audience")

/-- A number of a handoff, 0 where there is none. -/
def intOf (value : Option Json) : Int :=
  match value with
  | some (.num n) => n
  | _ => 0

def isSafeInteger (value : Option Json) : Bool :=
  intWithin (-Interaction.maxSafeInteger) Interaction.maxSafeInteger value

/-- What a committed handoff has besides. -/
def releaseValid (value : Json) : Bool :=
  coercedWhere isEpoch (value.field "next_epoch") &&
    (value.field "next_epoch").bind Json.asText ≠ (value.field "epoch").bind Json.asText &&
    isSafeInteger (value.field "completed_at") &&
    intOf (value.field "at") ≤ intOf (value.field "completed_at") &&
    (isNull (value.field "exit_code") || isSafeInteger (value.field "exit_code")) &&
    (isNull (value.field "exit_signal") || textWhere (fun t => utf16Length t ≤ 32 &&
      !t.any fun c => c.toNat ≤ 0x1F || c.toNat = 0x7F) (value.field "exit_signal"))

/-- The handoff is one that `restoreHandoff(value, epoch, generation)` returns as it is. -/
def handoffRestorable (value : Json) (epoch : Option Text) (generation : Int) : Bool :=
  let committed := isTextIn ["committed"] (value.field "state")
  utf16Length value.stringify ≤ 4096 &&
    isTextIn ["telepty.cooperative-handoff-intent/v1"] (value.field "schema") &&
    keysWithin handoffFields value && validPendingAudit value &&
    isTextIn ["awaiting_ack", "refused", "outcome_unknown", "committed"] (value.field "state") &&
    coercedWhere isUuid4 (value.field "id") &&
    coercedWhere (fun t => t.length = 36 && t.all fun c =>
      c.isDigit || ('a' ≤ c && c ≤ 'f') || c = '-') (value.field "owner_generation") &&
    coercedWhere isEpoch (value.field "epoch") && (value.field "actor").any handoffActorValid &&
    intWithin 1 (Interaction.maxSafeInteger - 1) (value.field "generation") &&
    isSafeInteger (value.field "expires_at") && intWithin 0 Interaction.maxSafeInteger (value.field "at") &&
    intOf (value.field "at") < intOf (value.field "expires_at") &&
    intOf (value.field "expires_at") - intOf (value.field "at") ≤ 60000 &&
    (!committed || releaseValid value) &&
    (if committed then
      (value.field "next_epoch").bind Json.asText = epoch && epoch.isSome &&
        intOf (value.field "generation") + 1 = generation
    else
      (value.field "epoch").bind Json.asText = epoch && epoch.isSome &&
        intOf (value.field "generation") = generation)

def unknownHandoff : Json := .obj [("state", .str "outcome_unknown"), ("invalid", .bool true)]

/-- `restoreHandoff(value, epoch, generation)` -/
def restoreHandoff (value : Json) (epoch : Option Text) (generation : Int) : Json :=
  if handoffRestorable value epoch generation then value else unknownHandoff

/-- The rows of a handoff audit are all committed handoffs that can be restored. -/
def handoffAuditValid (audit : Json) : Bool :=
  match audit with
  | .arr rows =>
    rows.length ≤ 32 && rows.all fun row =>
      isTextIn ["committed"] (row.field "state") &&
        handoffRestorable row ((row.field "next_epoch").bind Json.asText)
          (intOf (row.field "generation") + 1)
  | _ => false

/-- `restoreHandoffRecord(meta)`: the handoff and its audit. -/
def restoreHandoffRecord (handoff audit : Option Json) (epoch : Option Text) (generation : Int) :
    Option Json × Option Json :=
  let handoff := handoff.map fun value => restoreHandoff value epoch generation
  match audit with
  | none => (handoff, none)
  | some audit => if handoffAuditValid audit then (handoff, some audit) else (some unknownHandoff, none)

end Telepty.Registry
