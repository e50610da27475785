import Telepty.Infra.OrdMap
import Telepty.Infra.Sha256

/-!
# The ledger format: positions, records and frames

The pure part of `ledger-format.js` that the owner and the replay share. A record, an observation
and an action are JSON objects, read and updated by field as the source does; frames and facts are
typed, because the owner builds them field by field.

`applyFrame` works on any projection that offers the context of the source
(`{ get, set, facts, setAction }`): the owner passes its open group, replay passes the committed
memory.
-/

namespace Telepty.Ledger

open Infra

/-! ## Constants -/

def storeFormatVersion : Nat := 4

def maxObservationsPerRecord : Nat := 50

def frameHashChars : Nat := 16

def segmentRollBytes : Nat := 8388608

def receiptsMax : Nat := 40000

/-- `Number.MAX_SAFE_INTEGER` -/
def maxSafeInteger : Nat := 9007199254740991

/-- The cap on the bytes of one encoded frame, by the kind of the submission. -/
def frameCap (kind : Text) : Nat :=
  if kind = "reheat" then 1048576 else if kind = "iact" then 1056768 else 16384

def terminalStates : List Text := ["aborted", "superseded"]

/-- The digests of `node:crypto` that the format uses, with the shape of their values. -/
structure Digests where
  /-- the first sixteen hexadecimal digits of the SHA-256 of a text -/
  frameHash : Text → Text
  /-- the first sixteen bytes of the SHA-256 of a text -/
  keyPrefix : Text → Bytes
  /-- the hexadecimal SHA-256 of a file -/
  sha256 : Bytes → Text
  frameHash_length : ∀ t, (frameHash t).length = frameHashChars
  frameHash_hex : ∀ t, ∀ c ∈ frameHash t, (Json.hexValue c).isSome
  keyPrefix_length : ∀ t, (keyPrefix t).length = 16

/-- `crypto.createHash('sha256')` -/
def nodeCrypto : Digests where
  frameHash t := (Sha256.hex (Sha256.digest (encodeText t))).take frameHashChars
  keyPrefix t := ((Sha256.digest (encodeText t)).map UInt8.ofNat).take 16
  sha256 b := Sha256.hex (Sha256.digest b)
  frameHash_length t := by
    rw [List.length_take, Sha256.length_hex, Sha256.length_digest]
    rfl
  frameHash_hex t c hc := Sha256.isSome_hexValue_of_mem_hex (List.mem_of_mem_take hc)
  keyPrefix_length t := by rw [List.length_take, List.length_map, Sha256.length_digest]; rfl

/-! ## Log positions -/

structure Pos where
  epoch : Nat
  seq : Nat
  deriving DecidableEq

namespace Pos

def zero : Pos := ⟨0, 0⟩

def toJson (p : Pos) : Json := .obj [("epoch", .num p.epoch), ("seq", .num p.seq)]

/-- `pos(p.epoch, p.seq)` -/
def ofJson (j : Json) : Pos := ⟨j.natField "epoch", j.natField "seq"⟩

@[simp] theorem ofJson_toJson (p : Pos) : ofJson p.toJson = p := rfl

end Pos

def comparePos (a b : Pos) : Int :=
  if a.epoch ≠ b.epoch then (if a.epoch < b.epoch then -1 else 1)
  else if a.seq ≠ b.seq then (if a.seq < b.seq then -1 else 1)
  else 0

def posKey (p : Pos) : Text := natText p.epoch ++ ':' :: natText p.seq

theorem comparePos_neg_iff {a b : Pos} :
    comparePos a b < 0 ↔ a.epoch < b.epoch ∨ a.epoch = b.epoch ∧ a.seq < b.seq := by
  unfold comparePos
  repeat' split
  all_goals omega

theorem comparePos_nonpos_iff {a b : Pos} :
    comparePos a b ≤ 0 ↔ a.epoch < b.epoch ∨ a.epoch = b.epoch ∧ a.seq ≤ b.seq := by
  unfold comparePos
  repeat' split
  all_goals omega

theorem comparePos_swap (a b : Pos) : comparePos b a = - comparePos a b := by
  unfold comparePos
  repeat' split
  all_goals omega

theorem mem_posKey (p : Pos) : ':' ∈ posKey p := by
  simp [posKey]

theorem posKey_injective : Function.Injective posKey := by
  have hsplit : ∀ {a a' b b' : Text}, ':' ∉ a → ':' ∉ a' → a ++ ':' :: b = a' ++ ':' :: b' →
      a = a' ∧ b = b' := by
    intro a
    induction a with
    | nil =>
      rintro (_ | ⟨c, a'⟩) b b' - ha' h
      · exact ⟨rfl, (List.cons.inj h).2⟩
      · rw [(List.cons.inj h).1] at ha'
        exact absurd List.mem_cons_self ha'
    | cons c a ih =>
      rintro (_ | ⟨c', a'⟩) b b' ha ha' h
      · rw [← (List.cons.inj h).1] at ha
        exact absurd List.mem_cons_self ha
      · rw [List.mem_cons, not_or] at ha ha'
        obtain ⟨hc, ht⟩ := List.cons.inj h
        obtain ⟨h1, h2⟩ := ih ha.2 ha'.2 ht
        exact ⟨by rw [hc, h1], h2⟩
  have hcolon : ∀ n, ':' ∉ natText n := fun n h => absurd (isDigit_of_mem_natText h) (by decide)
  intro p q h
  obtain ⟨he, hs⟩ := hsplit (hcolon _) (hcolon _) h
  cases p
  cases q
  rw [Pos.mk.injEq]
  exact ⟨natText_injective he, natText_injective hs⟩

/-! ## Observations and records -/

/-- A value in a template literal; arrays do not occur there. -/
def templateText : Option Json → Text
  | none => "undefined"
  | some .null => "null"
  | some (.bool b) => if b then "true" else "false"
  | some (.num n) => Json.numText n
  | some (.str s) => s
  | some (.arr _) | some (.obj _) => "[object Object]"

def observationIdentity (observation : Json) : Text :=
  templateText (observation.field "kind") ++ '|' ::
    match observation.field "trigger" with
    | none | some .null => []
    | trigger => templateText trigger

/-- `v || null` -/
def orNull : Option Json → Json
  | none | some .null | some (.bool false) | some (.num 0) | some (.str []) => .null
  | some v => v

def capObservations (arr : List Json) : List Json :=
  arr.drop (arr.length - maxObservationsPerRecord)

/-- The entry an observation becomes in a record. -/
def observationEntry (record observation : Json) : Json :=
  ((observation.erase "at").set "seq" (.num (record.natField "observation_seq" + 1))).set "at"
    (orNull (observation.field "at"))

/-- `record.observations`, `[]` where it is no array. -/
def observationsOf (record : Json) : List Json :=
  ((record.field "observations").bind Json.asList).getD []

/-- The record with one more observation; its entry is `observationEntry`. -/
def appendObservation (record observation : Json) : Json :=
  let entry := observationEntry record observation
  ((record.set "observation_seq" (.num (record.natField "observation_seq" + 1))).set
    "last_observation" entry).set "observations"
    (.arr (capObservations (observationsOf record ++ [entry])))

structure Fact where
  pos : Pos
  scope : Text
  sid : Option Text
  observation : Json

namespace Fact

def toJson (f : Fact) : Json :=
  .obj [("pos", f.pos.toJson), ("scope", .str f.scope), ("sid", f.sid.elim .null .str),
    ("observation", f.observation)]

def ofJson (j : Json) : Fact :=
  { pos := (j.field "pos").elim .zero Pos.ofJson
    scope := j.textField "scope"
    sid := (j.field "sid").bind Json.asText
    observation := (j.field "observation").getD .null }

@[simp] theorem ofJson_toJson (f : Fact) : ofJson f.toJson = f := by
  obtain ⟨pos, scope, sid, observation⟩ := f
  cases sid <;> rfl

end Fact

def factApplies (fact : Fact) (record : Json) : Bool :=
  fact.scope = "global" ||
    (fact.scope = "session" && fact.sid.isSome &&
      (record.field "session_id").bind Json.asText = fact.sid)

/-- `record.materialized_through || pos(0, 0)` -/
def materializedThrough (record : Json) : Pos :=
  (record.field "materialized_through").elim .zero Pos.ofJson

/-- The facts after `through` and, when an upper bound is given, before it that apply to a record.
The facts are sorted, so the walk stops at the first one past the bound. -/
def factsBetween (record : Json) (through : Pos) (upto : Option Pos) : List Fact → List Fact
  | [] => []
  | fact :: rest =>
    if comparePos fact.pos through ≤ 0 then factsBetween record through upto rest
    else if upto.any fun u => 0 ≤ comparePos fact.pos u then []
    else if factApplies fact record then fact :: factsBetween record through upto rest
    else factsBetween record through upto rest

def pendingFactsFor (record : Json) (facts : List Fact) (upto : Option Pos) : List Fact :=
  factsBetween record (materializedThrough record) upto facts

/-- The observations of some facts, appended in order. -/
def foldFacts (record : Json) (facts : List Fact) : Json :=
  facts.foldl (fun r f => appendObservation r f.observation) record

def materialize (record : Json) (facts : List Fact) (through : Pos) : Json :=
  (foldFacts record facts).set "materialized_through" through.toJson

/-- The externally visible view of a record. -/
def overlay (record : Json) (facts : List Fact) : Json :=
  foldFacts record (pendingFactsFor record facts none)

/-- The record without the owner's own field. -/
def toLegacyRecord (record : Json) : Json := record.erase "materialized_through"

/-! ## Frames -/

inductive FrameBody where
  | begin (id sid : Text) (record : Json) (supersede : List (Text × Json))
  | obs (id : Text) (observation : Json)
  | state (id trackingState : Text) (observation : Json)
  | reheat (id : Text) (record : Json)
  | fact (scope : Text) (sid : Option Text) (observation : Json)
  | iact (action : Json) (pending : Option Json)
  /-- a frame of no known type -/
  | other (t : Text)

structure Frame where
  epoch : Nat
  seq : Nat
  txn : Text
  body : FrameBody

namespace Frame

def pos (f : Frame) : Pos := ⟨f.epoch, f.seq⟩

/-- `frame.t` -/
def kind (f : Frame) : Text :=
  match f.body with
  | .begin .. => "begin"
  | .obs .. => "obs"
  | .state .. => "state"
  | .reheat .. => "reheat"
  | .fact .. => "fact"
  | .iact .. => "iact"
  | .other t => t

/-- `frame.id || null` -/
def id? (f : Frame) : Option Text :=
  match f.body with
  | .begin id .. | .obs id _ | .state id _ _ | .reheat id _ => some id
  | _ => none

def supersedeJson (s : Text × Json) : Json := .obj [("id", .str s.1), ("entry", s.2)]

def bodyMembers (f : Frame) : List (Text × Json) :=
  match f.body with
  | .begin id sid record supersede =>
    [("id", .str id), ("sid", .str sid), ("record", record),
      ("supersede", .arr (supersede.map supersedeJson))]
  | .obs id observation => [("id", .str id), ("observation", observation)]
  | .state id ts observation =>
    [("id", .str id), ("tracking_state", .str ts), ("observation", observation)]
  | .reheat id record => [("id", .str id), ("record", record)]
  | .fact scope sid observation =>
    [("scope", .str scope), ("sid", sid.elim .null .str), ("observation", observation)]
  | .iact action pending => [("action", action), ("pending", pending.getD .null)]
  | .other _ => []

def toJson (f : Frame) : Json :=
  .obj (("t", .str f.kind) :: ("epoch", .num f.epoch) :: ("seq", .num f.seq)
    :: ("txn", .str f.txn) :: f.bodyMembers)

/-- `v || null`, with nothing for `null`. -/
def truthyObject (j : Option Json) : Option Json :=
  match orNull j with
  | .null => none
  | v => some v

theorem orNull_orNull (j : Option Json) : orNull (some (orNull j)) = orNull j := by
  rcases j with _ | v
  · rfl
  cases v with
  | bool b => cases b <;> rfl
  | num n =>
    rcases n with _ | n
    · next n => cases n <;> rfl
    · rfl
  | str s => cases s <;> rfl
  | _ => rfl

theorem truthyObject_truthy {j : Option Json} {v : Json} (h : truthyObject j = some v) :
    truthyObject (some v) = some v := by
  have hv : orNull j = v := by
    unfold truthyObject at h
    split at h
    · cases h
    · exact Option.some.inj h
  unfold truthyObject at h ⊢
  rw [← hv, orNull_orNull]
  rwa [hv] at h ⊢

def bodyOfJson (j : Json) : FrameBody :=
  let member (k : Text) : Json := (j.field k).getD .null
  let t := j.textField "t"
  if t = "begin" then
    .begin (j.textField "id") (j.textField "sid") (member "record")
      (((j.field "supersede").bind Json.asList).getD [] |>.map fun s =>
        (s.textField "id", (s.field "entry").getD .null))
  else if t = "obs" then .obs (j.textField "id") (member "observation")
  else if t = "state" then
    .state (j.textField "id") (j.textField "tracking_state") (member "observation")
  else if t = "reheat" then .reheat (j.textField "id") (member "record")
  else if t = "fact" then
    .fact (j.textField "scope") ((j.field "sid").bind Json.asText) (member "observation")
  else if t = "iact" then .iact (member "action") (truthyObject (j.field "pending"))
  else .other t

def ofJson (j : Json) : Frame :=
  { epoch := j.natField "epoch", seq := j.natField "seq", txn := j.textField "txn",
    body := bodyOfJson j }

/-- The frames the owner writes: of a known type, with a truthy pending value where there is one. -/
def WellFormed (f : Frame) : Prop :=
  match f.body with
  | .iact _ (some pending) => truthyObject (some pending) = some pending
  | .other _ => False
  | _ => True

/-- **A frame is read back from its object.** -/
theorem ofJson_toJson {f : Frame} (h : f.WellFormed) : ofJson f.toJson = f := by
  obtain ⟨epoch, seq, txn, body⟩ := f
  cases body with
  | begin id sid record supersede =>
    have hs : (supersede.map supersedeJson).map (fun s =>
        (s.textField "id", (s.field "entry").getD .null)) = supersede := by
      rw [List.map_map]
      exact (List.map_congr_left fun s _ => rfl).trans (List.map_id _)
    exact congrArg (fun l => (⟨epoch, seq, txn, .begin id sid record l⟩ : Frame)) hs
  | fact scope sid observation => cases sid <;> rfl
  | iact action pending =>
    cases pending with
    | none => rfl
    | some p =>
      have hp : truthyObject (some p) = some p := h
      exact congrArg (fun q => (⟨epoch, seq, txn, .iact action q⟩ : Frame)) hp
  | other t => exact h.elim
  | _ => rfl

end Frame

/-! ## Delta application -/

/-- The context `applyFrame` runs in. -/
structure FrameCtx (κ : Type) where
  get : κ → Text → Option Json
  set : κ → Text → Json → κ
  facts : κ → List Fact
  pushFact : κ → Fact → κ
  setAction : κ → Json → Option Json → κ

/-- What one frame did to one record. -/
structure Effect where
  id : Text
  entry : Option Json
  trackingState : Text
  record : Option Json

variable {κ : Type}

/-- The record with the facts before `pos` folded in. -/
def foldedAt (C : FrameCtx κ) (c : κ) (prior : Json) (at_ : Pos) : Json :=
  materialize prior (pendingFactsFor prior (C.facts c) (some at_)) at_

/-- The records a `begin` supersedes; one that is not in the projection is passed over. -/
def applySupersede (C : FrameCtx κ) (at_ : Pos) : List (Text × Json) → κ → κ × List Effect
  | [], c => (c, [])
  | (id, entry) :: rest, c =>
    match C.get c id with
    | none => applySupersede C at_ rest c
    | some prior =>
      let folded := (foldedAt C c prior at_).set "tracking_state" (.str "superseded")
      let next := applySupersede C at_ rest (C.set c id (appendObservation folded entry))
      (next.1, ⟨id, some (observationEntry folded entry), "superseded", none⟩ :: next.2)

/-- A frame applied to a projection, or the message of the error it throws. -/
def applyFrame (C : FrameCtx κ) (frame : Frame) (c : κ) : Except Text (κ × List Effect) :=
  let at_ := frame.pos
  match frame.body with
  | .begin id _ record supersede =>
    if (C.get c id).isSome then .error "already_exists"
    else
      let (c, effects) := applySupersede C at_ supersede c
      let record := record.set "materialized_through" at_.toJson
      .ok (C.set c id record, effects ++
        [⟨id, record.field "last_observation", record.textField "tracking_state", some record⟩])
  | .obs id observation =>
    match C.get c id with
    | none => .error "record_missing"
    | some prior =>
      let folded := foldedAt C c prior at_
      let record := appendObservation folded observation
      .ok (C.set c id record, [⟨id, some (observationEntry folded observation),
        record.textField "tracking_state", none⟩])
  | .state id ts observation =>
    match C.get c id with
    | none => .error "record_missing"
    | some prior =>
      if prior.textField "tracking_state" ≠ "tracked" then .error "record_terminal"
      else if ts ∉ terminalStates then .error "invalid"
      else
        let folded := (foldedAt C c prior at_).set "tracking_state" (.str ts)
        let record := appendObservation folded observation
        .ok (C.set c id record, [⟨id, some (observationEntry folded observation),
          record.textField "tracking_state", none⟩])
  | .reheat id record =>
    let record := record.set "materialized_through" at_.toJson
    .ok (C.set c id record,
      [⟨id, record.field "last_observation", record.textField "tracking_state", some record⟩])
  | .fact scope sid observation => .ok (C.pushFact c ⟨at_, scope, sid, observation⟩, [])
  | .iact action pending => .ok (C.setAction c action pending, [])
  | .other _ => .error "invalid"

end Telepty.Ledger
