import Telepty.Bridge.Context
import Telepty.Infra.JsonNumber
import Telepty.Infra.JsonPrint

/-!
# Stage receipts

`bridge-stage.js`: the bridge writes a receipt for each stage of an inject (`receiptFrame`), and the
daemon reads it (`validateBridgeReceipt`). The ids are strings of any code units here, so they may
hold surrogates that stand alone; numbers are naturals, as in every receipt.

The two ends have rules of their own. The bridge takes any bounded string for the id of an inject and
gives up on a frame that is too long; the daemon wants a UUID.
-/

namespace Telepty.Bridge.StageReceipt

open Infra Rfc8259

/-! ## Ids -/

/-- The ids of an inject frame, `none` for a missing one and for one that is no string. -/
structure Ids where
  daemonMsgId : Option Units
  injectId : Option Units
  part : Option Units
  pair : Option Units
  ownerGeneration : Option Units

/-- `ID_MAX_UNITS` -/
def idMaxUnits : Nat := 128

/-- `boundedId(value)` -/
def boundedId (value : Units) : Bool :=
  value ≠ [] && value.length ≤ idMaxUnits && value.all fun u => 0x1F < u && u ≠ 0x7F

/-- `PARTS` -/
def parts : List Units := [codeUnits "body", codeUnits "submit"]

/-- `frameMeta(source)` -/
def frameMeta (source : Ids) : Ids where
  daemonMsgId := source.daemonMsgId.filter boundedId
  injectId := source.injectId.filter boundedId
  part := source.part.filter (· ∈ parts)
  pair := source.pair.filter boundedId
  ownerGeneration := source.ownerGeneration.filter boundedId

/-! ## Stages -/

def stageNames : List (Units × Stage) :=
  [(codeUnits "queued", .queued), (codeUnits "withheld", .withheld),
    (codeUnits "pty_written", .ptyWritten), (codeUnits "quarantined", .quarantined),
    (codeUnits "refused", .refused), (codeUnits "unknown", .unknown)]

def certaintyNames : List (Units × Certainty) :=
  [(codeUnits "not_written", .notWritten), (codeUnits "written", .written),
    (codeUnits "unknown", .unknown)]

def stageName : Stage → Units
  | .queued => codeUnits "queued"
  | .withheld => codeUnits "withheld"
  | .ptyWritten => codeUnits "pty_written"
  | .quarantined => codeUnits "quarantined"
  | .refused => codeUnits "refused"
  | .unknown => codeUnits "unknown"

def certaintyName : Certainty → Units
  | .notWritten => codeUnits "not_written"
  | .written => codeUnits "written"
  | .unknown => codeUnits "unknown"

/-- `STAGE_CERTAINTY` -/
def stageCertainty : Stage → List Certainty
  | .queued => [.notWritten]
  | .withheld => [.notWritten]
  | .ptyWritten => [.written]
  | .quarantined => [.notWritten, .unknown]
  | .refused => [.notWritten]
  | .unknown => [.unknown]

/-- `/^[a-z0-9_.:-]{1,64}$/i` -/
def isToken (t : Units) : Bool :=
  t ≠ [] && t.length ≤ 64 && t.all fun u =>
    CodeUnit.isDigit u || (unit 'a' ≤ u.lower && u.lower ≤ unit 'z') ||
      u ∈ [unit '_', unit '.', unit ':', unit '-']

def isHexDigit (u : CodeUnit) : Bool :=
  u.isDigit || (unit 'a' ≤ u.lower && u.lower ≤ unit 'f')

/-- `/^[a-f0-9]{8}-[a-f0-9]{4}-[a-f0-9]{4}-[a-f0-9]{4}-[a-f0-9]{12}$/i` -/
def isUuid (t : Units) : Bool :=
  t.length = 36 && (List.range 36).all fun i =>
    t[i]?.any fun u => if i ∈ [8, 13, 18, 23] then u = unit '-' else isHexDigit u

def maxSafeInteger : Nat := 9007199254740991

/-- What `sendReceipt` says of a record: a stage with one of its certainties, a reason of the fixed
vocabulary, and the two counters. -/
structure Report where
  stage : Stage
  certainty : Certainty
  allowed : certainty ∈ stageCertainty stage
  reason : Option Units
  token : ∀ t ∈ reason, isToken t
  bridgeSeq : Nat
  seq_le : bridgeSeq ≤ maxSafeInteger
  atMs : Nat
  at_le : atMs ≤ maxSafeInteger

/-! ## The two ends -/

def nullable : Option Units → Value Nat
  | none => .null
  | some t => .str t

/-- The frame of `receiptFrame`, with the ids as they stand in it. -/
def frame (daemonMsgId injectId part bridgeMsgId : Option Units) (r : Report)
    (ownerGeneration : Option Units) : Value Nat :=
  .obj [(codeUnits "type", .str (codeUnits "bridge_receipt")), (codeUnits "schema", .num 1),
    (codeUnits "daemon_msg_id", nullable daemonMsgId), (codeUnits "inject_id", nullable injectId),
    (codeUnits "part", nullable part), (codeUnits "bridge_msg_id", nullable bridgeMsgId),
    (codeUnits "stage", .str (stageName r.stage)),
    (codeUnits "reason", nullable (r.reason.filter (· ≠ []))),
    (codeUnits "certainty", .str (certaintyName r.certainty)),
    (codeUnits "bridge_seq", .num r.bridgeSeq), (codeUnits "at_ms", .num r.atMs),
    (codeUnits "clock", .str (codeUnits "bridge_wall")),
    (codeUnits "owner_generation", nullable ownerGeneration)]

/-- `RECEIPT_MAX_BYTES` -/
def receiptMaxBytes : Nat := 512

/-- The text of the frame for the ids that are kept. -/
def rawFrame (ids : Ids) (bridgeMsgId : Option Units) (r : Report)
    (ownerGeneration : Option Units) : Units :=
  stringify printNat (frame (ids.daemonMsgId.filter boundedId) (ids.injectId.filter boundedId)
    (ids.part.filter (· ∈ parts)) bridgeMsgId r ownerGeneration)

/-- `receiptFrame({ meta, bridgeMsgId, … })` -/
def receiptFrame (ids : Ids) (bridgeMsgId : Option Units) (r : Report)
    (ownerGeneration : Option Units) : Option Units :=
  let raw := rawFrame ids (bridgeMsgId.filter boundedId) r ownerGeneration
  let raw := if receiptMaxBytes < utf8Length raw then rawFrame ids none r ownerGeneration else raw
  if utf8Length raw ≤ receiptMaxBytes then some raw else none

/-- `msg[key]` -/
def member (msg : Value Nat) (key : Text) : Option (Value Nat) :=
  match msg with
  | .obj ms => assoc (codeUnits key) ms
  | _ => none

def isStr (t : Units) : Option (Value Nat) → Bool
  | some (.str s) => s = t
  | _ => false

/-- `value ?? null` of a string the predicate takes; the outer `none` for any other value. -/
def nullableWhere (p : Units → Bool) : Option (Value Nat) → Option (Option Units)
  | none => some none
  | some .null => some none
  | some (.str t) => if p t then some (some t) else none
  | _ => none

def safeNat : Option (Value Nat) → Option Nat
  | some (.num n) => if n ≤ maxSafeInteger then some n else none
  | _ => none

/-- `frameBytes(msg)` -/
def frameBytes : Value Nat → Nat
  | .obj ms => utf8Length (stringify printNat (.obj (ms.filter fun m => m.1 ∉
      [codeUnits "connection_id", codeUnits "sequence", codeUnits "expires_at"])))
  | msg => utf8Length (stringify printNat msg)

/-- The stage with its certainty, where the stage has that certainty. -/
def outcomeOf (stage certainty : Option (Value Nat)) : Option (Stage × Certainty) :=
  match stage, certainty with
  | some (.str s), some (.str c) =>
    (assoc s stageNames).bind fun stage => (assoc c certaintyNames).bind fun certainty =>
      if certainty ∈ stageCertainty stage then some (stage, certainty) else none
  | _, _ => none

structure Receipt where
  injectId : Option Units
  daemonMsgId : Option Units
  part : Option Units
  bridgeMsgId : Option Units
  stage : Stage
  reason : Option Units
  certainty : Certainty
  bridgeSeq : Nat
  atMs : Nat

/-- `validateBridgeReceipt(msg, ownerGeneration)`; a stage that is a name of every object, such as
`toString`, throws there and is refused here. -/
def validateBridgeReceipt (msg : Value Nat) (ownerGeneration : Option Units) : Except Text Receipt :=
  if !isStr (codeUnits "bridge_receipt") (member msg "type") || !(safeNat (member msg "schema") = some 1)
  then .error "shape"
  else if receiptMaxBytes < frameBytes msg then .error "oversize"
  else if !ownerGeneration.any fun g => isStr g (member msg "owner_generation") then
    .error "owner_generation"
  else if (member msg "payload").isSome || (member msg "data").isSome then .error "payload_key"
  else match outcomeOf (member msg "stage") (member msg "certainty") with
  | none => .error "stage"
  | some (stage, certainty) =>
  match nullableWhere (· ∈ parts) (member msg "part") with
  | none => .error "part"
  | some part =>
  match nullableWhere isUuid (member msg "inject_id") with
  | none => .error "inject_id"
  | some injectId =>
  match nullableWhere boundedId (member msg "daemon_msg_id"),
    nullableWhere boundedId (member msg "bridge_msg_id") with
  | some daemonMsgId, some bridgeMsgId =>
    match nullableWhere isToken (member msg "reason") with
    | none => .error "reason"
    | some reason =>
    match safeNat (member msg "bridge_seq"), safeNat (member msg "at_ms") with
    | some bridgeSeq, some atMs =>
      if !isStr (codeUnits "bridge_wall") (member msg "clock") then .error "sequence"
      else .ok ⟨injectId.filter (· ≠ []), daemonMsgId, part.filter (· ≠ []), bridgeMsgId, stage,
        reason.filter (· ≠ []), certainty, bridgeSeq, atMs⟩
    | _, _ => .error "sequence"
  | _, _ => .error "id"

/-! ## The frame, read back -/

section

variable {d i p b g : Option Units} {r : Report}

theorem distinct_nullable (t : Option Units) : (nullable t : Value Nat).Distinct := by
  cases t <;> exact (Value.distinct_iff _).mpr ⟨List.nodup_nil, fun _ h => absurd h List.not_mem_nil⟩

theorem distinct_leaf {v : Value Nat} (h : v.children = []) (hn : v.names = []) : v.Distinct :=
  (Value.distinct_iff v).mpr ⟨hn ▸ List.nodup_nil, fun _ hc => absurd (h ▸ hc) List.not_mem_nil⟩

theorem distinct_frame : (frame d i p b r g).Distinct := by
  refine (Value.distinct_iff _).mpr ⟨?_, fun c hc => ?_⟩
  · show ([codeUnits "type", codeUnits "schema", codeUnits "daemon_msg_id", codeUnits "inject_id",
      codeUnits "part", codeUnits "bridge_msg_id", codeUnits "stage", codeUnits "reason",
      codeUnits "certainty", codeUnits "bridge_seq", codeUnits "at_ms", codeUnits "clock",
      codeUnits "owner_generation"] : List Units).Nodup
    decide
  · have hstr : ∀ t, (Value.str t : Value Nat).Distinct := fun t => distinct_leaf rfl rfl
    have hnum : ∀ n, (Value.num n : Value Nat).Distinct := fun n => distinct_leaf rfl rfl
    simp only [frame, Value.children, List.map_cons, List.map_nil, List.mem_cons, List.not_mem_nil,
      or_false] at hc
    rcases hc with rfl | rfl | rfl | rfl | rfl | rfl | rfl | rfl | rfl | rfl | rfl | rfl | rfl
    all_goals first | exact hstr _ | exact hnum _ | exact distinct_nullable _

/-- A value without repeated names is read back. -/
theorem jsonParse_stringify {v : Value Nat} (h : v.Distinct) :
    jsonParse readNat (stringify printNat v) = some v := by
  refine jsonParse_eq_some.mpr ⟨v, ⟨_, [], Ws.refl _, ?_, Ws.refl _⟩, v.collapse_eq h⟩
  have hvalue : IsValue readNat (stringify printNat v ++ []) v [] :=
    isValue_stringify (p := fun _ => true)
      (fun n _ => ⟨isNumber_printNat n, readNat_printNat n⟩) v (fun _ _ => rfl) []
  rwa [List.append_nil] at hvalue

/-- The members that the daemon reads. -/
theorem member_frame :
    member (frame d i p b r g) "type" = some (.str (codeUnits "bridge_receipt")) ∧
    member (frame d i p b r g) "schema" = some (.num 1) ∧
    member (frame d i p b r g) "daemon_msg_id" = some (nullable d) ∧
    member (frame d i p b r g) "inject_id" = some (nullable i) ∧
    member (frame d i p b r g) "part" = some (nullable p) ∧
    member (frame d i p b r g) "bridge_msg_id" = some (nullable b) ∧
    member (frame d i p b r g) "stage" = some (.str (stageName r.stage)) ∧
    member (frame d i p b r g) "reason" = some (nullable (r.reason.filter (· ≠ []))) ∧
    member (frame d i p b r g) "certainty" = some (.str (certaintyName r.certainty)) ∧
    member (frame d i p b r g) "bridge_seq" = some (.num r.bridgeSeq) ∧
    member (frame d i p b r g) "at_ms" = some (.num r.atMs) ∧
    member (frame d i p b r g) "clock" = some (.str (codeUnits "bridge_wall")) ∧
    member (frame d i p b r g) "owner_generation" = some (nullable g) ∧
    member (frame d i p b r g) "payload" = none ∧ member (frame d i p b r g) "data" = none :=
  ⟨rfl, rfl, rfl, rfl, rfl, rfl, rfl, rfl, rfl, rfl, rfl, rfl, rfl, rfl, rfl⟩

theorem frameBytes_frame :
    frameBytes (frame d i p b r g) = utf8Length (stringify printNat (frame d i p b r g)) := rfl

theorem nullableWhere_nullable (q : Units → Bool) (t : Option Units) :
    nullableWhere q (some (nullable t)) = if t.all q then some t else none := by
  cases t with
  | none => rfl
  | some t => rfl

theorem outcomeOf_frame (r : Report) :
    outcomeOf (some (.str (stageName r.stage))) (some (.str (certaintyName r.certainty))) =
      some (r.stage, r.certainty) := by
  have hstage : assoc (stageName r.stage) stageNames = some r.stage := by
    cases r.stage <;> decide
  have hcertainty : assoc (certaintyName r.certainty) certaintyNames = some r.certainty := by
    cases r.certainty <;> decide
  rw [outcomeOf, hstage, hcertainty, Option.bind_some, Option.bind_some, if_pos r.allowed]

theorem filter_eq_self {α : Type} {q : α → Bool} {o : Option α} (h : ∀ t ∈ o, q t) :
    o.filter q = o := by
  cases o with
  | none => rfl
  | some t => rw [Option.filter_some_pos (h t rfl)]

theorem filter_ne_nil {q : Units → Bool} {o : Option Units} (hq : q [] = false)
    (h : ∀ t ∈ o, q t) : o.filter (· ≠ []) = o := by
  refine filter_eq_self fun t ht => decide_eq_true fun hnil => ?_
  have := h t ht
  rw [hnil, hq] at this
  cases this

/-- **What the daemon makes of a frame.** -/
theorem validate_frame {g : Units} (hd : ∀ t ∈ d, boundedId t) (hp : ∀ t ∈ p, t ∈ parts)
    (hb : ∀ t ∈ b, boundedId t) :
    validateBridgeReceipt (frame d i p b r (some g)) (some g) =
      if receiptMaxBytes < utf8Length (stringify printNat (frame d i p b r (some g))) then
        .error "oversize"
      else if i.all isUuid then
        .ok ⟨i, d, p, b, r.stage, r.reason, r.certainty, r.bridgeSeq, r.atMs⟩
      else .error "inject_id" := by
  obtain ⟨htype, hschema, hdaemon, hinject, hpart, hbridge, hstage, hreason, hcertainty, hseq, hat,
    hclock, hgen, hpayload, hdata⟩ := member_frame (d := d) (i := i) (p := p) (b := b) (r := r)
      (g := some g)
  have hone : safeNat (some (.num 1)) = some 1 := rfl
  have hs : safeNat (some (.num r.bridgeSeq)) = some r.bridgeSeq := if_pos r.seq_le
  have ha : safeNat (some (.num r.atMs)) = some r.atMs := if_pos r.at_le
  have hdall : d.all boundedId = true := (Option.all_eq_true _ _).mpr hd
  have hball : b.all boundedId = true := (Option.all_eq_true _ _).mpr hb
  have hpall : p.all (· ∈ parts) = true :=
    (Option.all_eq_true _ _).mpr fun t ht => decide_eq_true (hp t ht)
  have hrall : r.reason.all isToken = true := (Option.all_eq_true _ _).mpr r.token
  have hfilter : p.filter (· ≠ []) = p :=
    filter_ne_nil (q := (· ∈ parts)) rfl fun t ht => decide_eq_true (hp t ht)
  have hrfilter : r.reason.filter (· ≠ []) = r.reason := filter_ne_nil rfl r.token
  unfold validateBridgeReceipt
  rw [htype, hschema, hdaemon, hinject, hpart, hbridge, hstage, hreason, hcertainty, hseq, hat, hclock,
    hgen, hpayload, hdata, frameBytes_frame, hone, outcomeOf_frame, hs, ha, hrfilter,
    nullableWhere_nullable, nullableWhere_nullable, nullableWhere_nullable, nullableWhere_nullable,
    nullableWhere_nullable, if_pos hdall, if_pos hball, if_pos hpall, if_pos hrall, if_neg (by
      simp [isStr])]
  by_cases hsize : receiptMaxBytes < utf8Length (stringify printNat (frame d i p b r (some g)))
  · rw [if_pos hsize, if_pos hsize]
  · rw [if_neg hsize, if_neg hsize, if_neg (by simp [isStr, nullable]), if_neg (by simp)]
    dsimp only
    by_cases hi : i.all isUuid
    · have hifilter : i.filter (· ≠ []) = i :=
        filter_ne_nil (q := isUuid) rfl ((Option.all_eq_true _ _).mp hi)
      rw [if_pos hi, if_pos hi]
      dsimp only
      rw [if_neg (by simp [isStr]), hfilter, hifilter, hrfilter]
    · rw [if_neg hi, if_neg hi]

/-! ## Receipts and their validator -/

/-- The receipt of a report is returned, and the daemon accepts it with the same ids, stage, reason
and certainty; only the id of the bridge may be blank. -/
def Carried (ids : Ids) (bridgeMsgId : Option Units) (r : Report) (g : Units) : Prop :=
  ∃ raw msg receipt, receiptFrame ids bridgeMsgId r (some g) = some raw ∧
    jsonParse readNat raw = some msg ∧ validateBridgeReceipt msg (some g) = .ok receipt ∧
    receipt.injectId = ids.injectId ∧ receipt.daemonMsgId = ids.daemonMsgId ∧
    receipt.part = ids.part ∧ receipt.stage = r.stage ∧ receipt.reason = r.reason ∧
    receipt.certainty = r.certainty ∧
    (receipt.bridgeMsgId = bridgeMsgId.filter boundedId ∨ receipt.bridgeMsgId = none)

/-- **What is read of a frame that fits.** -/
theorem validate_rawFrame (source : Ids) {b : Option Units} (hb : ∀ t ∈ b, boundedId t) {g : Units}
    (hsize : utf8Length (rawFrame (frameMeta source) b r (some g)) ≤ receiptMaxBytes) :
    ∃ msg, jsonParse readNat (rawFrame (frameMeta source) b r (some g)) = some msg ∧
      validateBridgeReceipt msg (some g) =
        if (frameMeta source).injectId.all isUuid then
          .ok ⟨(frameMeta source).injectId, (frameMeta source).daemonMsgId, (frameMeta source).part, b,
            r.stage, r.reason, r.certainty, r.bridgeSeq, r.atMs⟩
        else .error "inject_id" := by
  have hd : ∀ t ∈ (frameMeta source).daemonMsgId, boundedId t := fun t ht =>
    (Option.filter_eq_some_iff.mp ht).2
  have hi : ∀ t ∈ (frameMeta source).injectId, boundedId t := fun t ht =>
    (Option.filter_eq_some_iff.mp ht).2
  have hp : ∀ t ∈ (frameMeta source).part, decide (t ∈ parts) := fun t ht =>
    (Option.filter_eq_some_iff.mp ht).2
  have hraw : rawFrame (frameMeta source) b r (some g) = stringify printNat
      (frame (frameMeta source).daemonMsgId (frameMeta source).injectId (frameMeta source).part b r
        (some g)) := by
    rw [rawFrame, filter_eq_self hd, filter_eq_self hi, filter_eq_self hp]
  rw [hraw] at hsize ⊢
  refine ⟨_, jsonParse_stringify distinct_frame, ?_⟩
  rw [validate_frame hd (fun t ht => of_decide_eq_true (hp t ht)) hb, if_neg (Nat.not_lt.mpr hsize)]

/-- The frame that `receiptFrame` settles on: with the id of the bridge, or without it where that one
is too long. -/
theorem receiptFrame_eq (ids : Ids) (bridgeMsgId : Option Units) (r : Report) (g : Units) :
    ∃ b, (∀ t ∈ b, boundedId t) ∧ (b = bridgeMsgId.filter boundedId ∨ b = none) ∧
      receiptFrame ids bridgeMsgId r (some g) =
        (if utf8Length (rawFrame ids b r (some g)) ≤ receiptMaxBytes then
          some (rawFrame ids b r (some g)) else none) ∧
      (utf8Length (rawFrame ids b r (some g)) ≤ receiptMaxBytes ↔
        utf8Length (rawFrame ids (bridgeMsgId.filter boundedId) r (some g)) ≤ receiptMaxBytes ∨
          utf8Length (rawFrame ids none r (some g)) ≤ receiptMaxBytes) := by
  by_cases hlong : receiptMaxBytes <
      utf8Length (rawFrame ids (bridgeMsgId.filter boundedId) r (some g))
  · refine ⟨none, nofun, .inr rfl, ?_, ?_⟩
    · rw [receiptFrame, if_pos hlong]
    · exact ⟨.inr, fun h => h.resolve_left (Nat.not_le.mpr hlong)⟩
  · refine ⟨bridgeMsgId.filter boundedId, fun t ht => (Option.filter_eq_some_iff.mp ht).2, .inl rfl,
      ?_, ?_⟩
    · rw [receiptFrame, if_neg hlong]
    · exact ⟨.inl, fun _ => Nat.not_lt.mp hlong⟩

theorem Carried.fits {source : Ids} {bridgeMsgId : Option Units} {g : Units}
    (h : Carried (frameMeta source) bridgeMsgId r g) :
    (frameMeta source).injectId.all isUuid ∧
      (utf8Length (rawFrame (frameMeta source) (bridgeMsgId.filter boundedId) r (some g)) ≤
          receiptMaxBytes ∨
        utf8Length (rawFrame (frameMeta source) none r (some g)) ≤ receiptMaxBytes) := by
  obtain ⟨b, hb, -, hframe, hfits⟩ := receiptFrame_eq (frameMeta source) bridgeMsgId r g
  obtain ⟨raw, msg, receipt, hraw, hparse, hvalid, -⟩ := h
  rw [hframe] at hraw
  split at hraw
  · next hsize =>
    refine ⟨?_, hfits.mp hsize⟩
    cases hraw
    obtain ⟨msg', hparse', hvalid'⟩ := validate_rawFrame (r := r) source hb hsize
    obtain rfl : msg = msg' := Option.some.inj (hparse.symm.trans hparse')
    rw [hvalid] at hvalid'
    by_contra hno
    rw [if_neg hno] at hvalid'
    cases hvalid'
  · cases hraw

/-- **A receipt is carried just if its inject id is a UUID and it fits**, with the id of the bridge or
without it. -/
theorem carried_iff (source : Ids) (bridgeMsgId : Option Units) (r : Report) (g : Units) :
    Carried (frameMeta source) bridgeMsgId r g ↔
      (frameMeta source).injectId.all isUuid ∧
        (utf8Length (rawFrame (frameMeta source) (bridgeMsgId.filter boundedId) r (some g)) ≤
            receiptMaxBytes ∨
          utf8Length (rawFrame (frameMeta source) none r (some g)) ≤ receiptMaxBytes) := by
  refine ⟨Carried.fits, fun ⟨huuid, hsize⟩ => ?_⟩
  obtain ⟨b, hb, hmay, hframe, hfits⟩ := receiptFrame_eq (frameMeta source) bridgeMsgId r g
  have hsize := hfits.mpr hsize
  obtain ⟨msg, hparse, hvalid⟩ := validate_rawFrame (r := r) source hb hsize
  rw [if_pos huuid] at hvalid
  rw [if_pos hsize] at hframe
  exact ⟨_, msg, _, hframe, hparse, hvalid, rfl, rfl, rfl, rfl, rfl, rfl, hmay⟩

/-- `pty_written`, the first receipt of a bridge. -/
def writtenReport : Report where
  stage := .ptyWritten
  certainty := .written
  allowed := by decide
  reason := none
  token := nofun
  bridgeSeq := 1
  seq_le := by decide
  atMs := 1000
  at_le := by decide

/-- **An id of another form, an id of another alphabet**: the daemon refuses the first receipt, and
the second one is not written. -/
theorem receipts_lost :
    ¬Carried (frameMeta ⟨none, some (codeUnits "inject-1"), none, none, none⟩) none writtenReport
        (codeUnits "g") ∧
      ¬Carried (frameMeta ⟨some (List.replicate 128 0x4E00), none, none, none, none⟩) none
        writtenReport (codeUnits "g") := by
  refine ⟨fun h => ?_, fun h => ?_⟩
  · have huuid := h.fits.1
    revert huuid
    decide
  · have hsize := h.fits.2
    revert hsize
    decide +kernel

end

end Telepty.Bridge.StageReceipt
