import Telepty.Infra.Process
import Telepty.Ledger.Codec

/-!
# The memory of the owner

`createStore` keeps one object `S` for the life of the owner thread; `State` is that object. The
hot records and their index by session are one structure, which carries the proof that the index
names exactly the hot records of each session.
-/

namespace Telepty.Ledger

open Infra

/-! ## Paths -/

/-- `options.dir`; its parent is the root of the file system. -/
def storeDir : Path := ["tracked-injections.json"]

def parentPath : Path := []

def lockPath : Path := ["tracked-injections.lock"]

def manifestPath : Path := joinPath storeDir "MANIFEST.json"

def hotDir : Path := joinPath storeDir "hot"

def coldDir : Path := joinPath storeDir "cold"

def factsDir : Path := joinPath storeDir "facts"

def segmentsDir : Path := joinPath storeDir "segments"

def hotFile (n : Nat) : Path := joinPath hotDir (natText n ++ ".jsonl")

def receiptsFile (n : Nat) : Path := joinPath hotDir (natText n ++ ".receipts.jsonl")

def factsFile (n : Nat) : Path := joinPath factsDir (natText n ++ ".jsonl")

def factsIndexFile (n : Nat) : Path := joinPath factsDir (natText n ++ ".sid.idx")

def coldFile (n : Nat) : Path := joinPath coldDir (natText n ++ ".jsonl")

def coldIdIndexFile (n : Nat) : Path := joinPath coldDir (natText n ++ ".id.idx")

def coldSidIndexFile (n : Nat) : Path := joinPath coldDir (natText n ++ ".sid.idx")

def segmentName (epoch n : Nat) : Text := natText epoch ++ '-' :: natText n ++ ".jsonl"

def segmentFile (name : Text) : Path := joinPath segmentsDir name

/-! ## Options -/

/-- What a legacy ledger file holds, as the loader of the old format returns it. -/
structure LegacyLedger where
  generation : Nat
  injections : List (Text × Json)
  actions : List Json
  pending : List Json

/-- `createStore(options)`: the environment stands for `fsImpl`, the clock and the random source. -/
structure Options where
  env : Env
  digests : Digests
  groupFrames : Nat
  groupBytes : Nat
  compactFrames : Nat
  hotMaxRecords : Nat
  hotMaxBytes : Nat
  coldIndexMaxBytes : Nat
  win32 : Bool
  /-- `new Date(ms).toISOString()` -/
  isoText : Nat → Text
  /-- `persistence.loadTrackedInjections` on the bytes of a file -/
  loadTrackedInjections : Bytes → Except Failure LegacyLedger

/-! ## The hot tier -/

def sessionOf (record : Json) : Text := record.textField "session_id"

/-- `Buffer.byteLength(JSON.stringify(record), 'utf8')` -/
def encodedBytes (record : Json) : Nat := (encodeText record.stringify).length

/-- The ids a session has in the index. -/
def idsOf (bySession : OrdMap Text (List Text)) (sid : Text) : List Text :=
  (bySession.get? sid).getD []

/-- `S.hot`, `S.hotBySession` and `S.hotBytes`. -/
structure HotSet where
  records : OrdMap Text Json
  bySession : OrdMap Text (List Text)
  bytes : Nat
  indexed : ∀ sid id, id ∈ idsOf bySession sid ↔
    ∃ r, records.get? id = some r ∧ sessionOf r = sid
  /-- the ids of a session are a set -/
  nodup : ∀ sid, (idsOf bySession sid).Nodup

namespace HotSet

def empty : HotSet := ⟨.empty, .empty, 0, by simp [idsOf], by simp [idsOf]⟩

def get? (h : HotSet) (id : Text) : Option Json := h.records.get? id

/-- `set.delete(id)` on the ids of one session. -/
def unindex (bySession : OrdMap Text (List Text)) (sid id : Text) : OrdMap Text (List Text) :=
  match bySession.get? sid with
  | none => bySession
  | some ids => bySession.set sid (ids.filter (· ≠ id))

theorem mem_idsOf_unindex {bySession : OrdMap Text (List Text)} {sid sid' id id' : Text} :
    id' ∈ idsOf (unindex bySession sid id) sid' ↔
      id' ∈ idsOf bySession sid' ∧ ¬ (sid' = sid ∧ id' = id) := by
  unfold unindex
  split
  · next h =>
    constructor
    · intro hm
      refine ⟨hm, ?_⟩
      rintro ⟨rfl, -⟩
      simp [idsOf, h] at hm
    · exact And.left
  · next ids h =>
    by_cases hs : sid' = sid
    · subst hs
      simp [idsOf, h]
    · simp [idsOf, OrdMap.get?_set_of_ne _ hs, hs]

/-- The ids of a session with one more, at the end unless it is there. -/
def index (bySession : OrdMap Text (List Text)) (sid id : Text) : OrdMap Text (List Text) :=
  let ids := idsOf bySession sid
  bySession.set sid (if id ∈ ids then ids else ids ++ [id])

theorem mem_idsOf_index {bySession : OrdMap Text (List Text)} {sid sid' id id' : Text} :
    id' ∈ idsOf (index bySession sid id) sid' ↔
      id' ∈ idsOf bySession sid' ∨ sid' = sid ∧ id' = id := by
  unfold index
  by_cases hs : sid' = sid
  · subst hs
    rw [idsOf, OrdMap.get?_set_self, Option.getD_some]
    split
    · next h =>
      constructor
      · exact .inl
      · rintro (h' | ⟨-, rfl⟩)
        · exact h'
        · exact h
    · simp
  · simp [idsOf, OrdMap.get?_set_of_ne _ hs, hs]

theorem nodup_unindex {bySession : OrdMap Text (List Text)}
    (h : ∀ sid, (idsOf bySession sid).Nodup) (sid id sid' : Text) :
    (idsOf (unindex bySession sid id) sid').Nodup := by
  unfold unindex
  split
  · exact h sid'
  · next ids hids =>
    rw [idsOf, OrdMap.get?_set]
    split
    · next hs =>
      have := h sid
      rw [idsOf, hids] at this
      exact this.filter _
    · exact h sid'

theorem nodup_index {bySession : OrdMap Text (List Text)}
    (h : ∀ sid, (idsOf bySession sid).Nodup) (sid id sid' : Text) :
    (idsOf (index bySession sid id) sid').Nodup := by
  unfold index
  dsimp only
  rw [idsOf, OrdMap.get?_set]
  split
  · rw [Option.getD_some]
    split
    · exact h sid
    · next hm =>
      exact List.nodup_append.mpr ⟨h sid, List.nodup_singleton id, fun a ha b hb heq =>
        hm (List.mem_singleton.mp hb ▸ heq ▸ ha)⟩
  · exact h sid'

/-- The index without the entry of the record that `id` names now. -/
def withoutPrior (h : HotSet) (id : Text) : OrdMap Text (List Text) :=
  match h.get? id with
  | none => h.bySession
  | some prior => unindex h.bySession (sessionOf prior) id

theorem mem_idsOf_withoutPrior {h : HotSet} {sid id id' : Text} :
    id' ∈ idsOf (h.withoutPrior id) sid ↔
      id' ≠ id ∧ ∃ r, h.records.get? id' = some r ∧ sessionOf r = sid := by
  unfold withoutPrior
  split
  · next hn =>
    rw [h.indexed]
    constructor
    · rintro ⟨r, hr, hs⟩
      refine ⟨?_, r, hr, hs⟩
      rintro rfl
      rw [get?, hr] at hn
      cases hn
    · exact And.right
  · next prior hp =>
    rw [mem_idsOf_unindex, h.indexed]
    constructor
    · rintro ⟨⟨r, hr, hs⟩, hne⟩
      refine ⟨?_, r, hr, hs⟩
      rintro rfl
      rw [get?, hr] at hp
      cases hp
      exact hne ⟨hs.symm, rfl⟩
    · rintro ⟨hne, hr⟩
      exact ⟨hr, fun hc => hne hc.2⟩

theorem nodup_withoutPrior (h : HotSet) (id sid : Text) :
    (idsOf (h.withoutPrior id) sid).Nodup := by
  unfold withoutPrior
  split
  · exact h.nodup sid
  · exact nodup_unindex h.nodup _ _ _

def priorBytes (h : HotSet) (id : Text) : Nat := (h.get? id).elim 0 encodedBytes

/-- `setHot(id, record)` -/
def set (h : HotSet) (id : Text) (record : Json) : HotSet where
  records := h.records.set id record
  bySession := index (h.withoutPrior id) (sessionOf record) id
  bytes := h.bytes - h.priorBytes id + encodedBytes record
  indexed := fun sid id' => by
    rw [mem_idsOf_index, mem_idsOf_withoutPrior, OrdMap.get?_set]
    by_cases hid : id' = id
    · subst hid
      constructor
      · rintro (⟨hne, -⟩ | ⟨rfl, -⟩)
        · exact absurd rfl hne
        · exact ⟨record, by simp, rfl⟩
      · rintro ⟨r, hr, rfl⟩
        rw [if_pos rfl, Option.some.injEq] at hr
        exact .inr ⟨by rw [hr], rfl⟩
    · simp [hid]
  nodup := nodup_index (h.nodup_withoutPrior id) _ _

/-- `removeHot(id)` -/
def remove (h : HotSet) (id : Text) : HotSet :=
  match hp : h.get? id with
  | none => h
  | some prior =>
    { records := h.records.delete id
      bySession :=
        let left := unindex h.bySession (sessionOf prior) id
        if idsOf left (sessionOf prior) = [] then left.delete (sessionOf prior) else left
      bytes := h.bytes - encodedBytes prior
      indexed := fun sid id' => by
        have hw : unindex h.bySession (sessionOf prior) id = h.withoutPrior id := by
          rw [withoutPrior]
          split
          · next hn => rw [hn] at hp; cases hp
          · next p hp' => rw [hp'] at hp; cases hp; rfl
        have hmem : ∀ (b : OrdMap Text (List Text)) (s : Text), idsOf b s = [] →
            (id' ∈ idsOf (b.delete s) sid ↔ id' ∈ idsOf b sid) := by
          intro b s hs
          rw [idsOf, OrdMap.get?_delete]
          split
          · next he => subst he; simp [hs]
          · rfl
        have hdel : (∃ r, (h.records.delete id).get? id' = some r ∧ sessionOf r = sid) ↔
            id' ≠ id ∧ ∃ r, h.records.get? id' = some r ∧ sessionOf r = sid := by
          rw [OrdMap.get?_delete]
          by_cases hid : id' = id <;> simp [hid]
        rw [hdel, ← mem_idsOf_withoutPrior, ← hw]
        simp only
        split
        · next he => exact hmem _ _ he
        · rfl
      nodup := fun sid => by
        have hleft := nodup_unindex h.nodup (sessionOf prior) id
        simp only
        split
        · rw [idsOf, OrdMap.get?_delete]
          split
          · exact List.nodup_nil
          · exact hleft sid
        · exact hleft sid }

theorem get?_set (h : HotSet) (id : Text) (r : Json) (j : Text) :
    (h.set id r).get? j = if j = id then some r else h.get? j := OrdMap.get?_set _ _

theorem get?_remove (h : HotSet) (id j : Text) :
    (h.remove id).get? j = if j = id then none else h.get? j := by
  unfold remove
  split
  · next hn =>
    by_cases hj : j = id
    · rw [if_pos hj, hj, hn]
    · rw [if_neg hj]
  · exact OrdMap.get?_delete _ _

theorem mem_bySession {h : HotSet} {sid id : Text} :
    id ∈ idsOf h.bySession sid ↔ ∃ r, h.get? id = some r ∧ sessionOf r = sid := h.indexed sid id

/-- Setting each pair of a list in turn. -/
def setAll (h : HotSet) (l : List (Text × Json)) : HotSet := l.foldl (fun h e => h.set e.1 e.2) h

theorem get?_setAll (h : HotSet) (l : List (Text × Json)) (id : Text) :
    (h.setAll l).get? id = (h.records.setAll l).get? id := by
  have hr : (h.setAll l).records = h.records.setAll l := by
    induction l generalizing h with
    | nil => rfl
    | cons e l ih => exact ih (h.set e.1 e.2)
  rw [get?, hr]

/-- Removing each of some ids. -/
def removeAll (h : HotSet) (ids : List Text) : HotSet := ids.foldl remove h

theorem get?_removeAll (h : HotSet) (ids : List Text) (j : Text) :
    (h.removeAll ids).get? j = if j ∈ ids then none else h.get? j := by
  induction ids generalizing h with
  | nil => simp [removeAll]
  | cons id ids ih =>
    rw [removeAll, List.foldl_cons, ← removeAll, ih, get?_remove]
    by_cases h1 : j ∈ ids
    · simp [h1]
    · by_cases h2 : j = id
      · simp [h2]
      · simp [h1, h2]

end HotSet

/-! ## The other tables -/

/-- The legacy file a store was migrated from. -/
structure Legacy where
  sha256 : Text
  bytes : Nat
  generation : Nat
  deriving DecidableEq

/-- One cold generation of the published list. -/
structure ColdRef where
  n : Nat
  records : Nat
  bytes : Nat
  deriving DecidableEq

/-- The fields of MANIFEST.json that a later open reads. -/
structure Manifest where
  format : Nat
  epoch : Nat
  seqCommitted : Nat
  published : Bool
  token : Text
  checkpoint : Pos
  hotN : Option Nat
  receiptsN : Option Nat
  receiptsPrev : Option Nat
  cold : List ColdRef
  factsN : Option Nat
  legacy : Option Legacy
  lastCheckpointN : Option Nat
  cleanClose : Bool
  deriving DecidableEq

/-- The checkpoint that holds a receipt: none yet (`'open'`, `'replay'`) or one of a number. -/
inductive ReceiptCkpt where
  | open
  | replay
  | number (n : Nat)
  deriving DecidableEq

structure Receipt where
  pos : Pos
  kind : Text
  id : Option Text
  ckpt : ReceiptCkpt
  deriving DecidableEq

/-- A cold generation in memory: its file, its two indexes and whether they are offline. -/
structure ColdMeta where
  n : Nat
  file : Path
  idIdx : Bytes
  sidIdx : Bytes
  records : Nat
  bytes : Nat
  offline : Bool

structure Segment where
  name : Text
  epoch : Nat
  n : Nat
  closed : Bool
  bytes : Nat

/-- `S.seg`: the segment that is open for appending. -/
structure OpenSegment where
  name : Text
  bytes : Nat
  epoch : Nat
  n : Nat

/-- A frame of the open group, as it will be acknowledged. -/
structure Member where
  txn : Text
  kind : Text
  id : Option Text
  pos : Pos
  effects : List Effect
  bytes : Nat
  hash : Text

/-- A verdict that waits for the open group. -/
structure PendingNoop where
  txn : Text
  result : Text

/-- The open group. `touched` of the source is the set of the keys of `overlay`. -/
structure Group where
  frames : List Frame
  bytes : Nat
  members : List Member
  noops : List PendingNoop
  overlay : OrdMap Text Json
  facts : List Fact
  actions : List (Json × Option Json)
  seqFrom : Option Nat
  seqTo : Nat
  factsAdded : Nat

/-- A group whose bytes may or may not be on the disk. -/
structure PossiblyDurable where
  txns : List Text

inductive StoreState where
  | closed
  | recovering
  | available
  | unavailable
  | unavailableRead
  | unavailableWrite
  deriving DecidableEq

structure State where
  pid : Nat
  token : Text
  state : StoreState
  reason : Text
  epoch : Nat
  seqNext : Nat
  seqCommitted : Nat
  manifest : Option Manifest
  hot : HotSet
  actions : OrdMap Text Json
  pending : OrdMap Text Json
  facts : List Fact
  receipts : OrdMap Text Receipt
  receiptCkpts : List Nat
  appliedPos : List Text
  txnHash : OrdMap Text Text
  cold : List ColdMeta
  unappliedTxns : OrdMap Text (Text × Nat)
  segments : List Segment
  seg : Option OpenSegment
  framesSinceCheckpoint : Nat
  checkpointN : Nat
  checkpointPos : Pos
  allocHot : Nat
  allocCold : Nat
  group : Option Group
  liveSids : List Text
  legacy : Option Legacy
  closing : Bool
  possiblyDurable : Option PossiblyDurable

/-- The memory of an owner that has not been opened. -/
def State.initial (pid : Nat) (token : Text) (liveSids : List Text) : State where
  pid := pid
  token := token
  state := .closed
  reason := []
  epoch := 0
  seqNext := 1
  seqCommitted := 0
  manifest := none
  hot := .empty
  actions := .empty
  pending := .empty
  facts := []
  receipts := .empty
  receiptCkpts := []
  appliedPos := []
  txnHash := .empty
  cold := []
  unappliedTxns := .empty
  segments := []
  seg := none
  framesSinceCheckpoint := 0
  checkpointN := 0
  checkpointPos := .zero
  allocHot := 0
  allocCold := 0
  group := none
  liveSids := liveSids
  legacy := none
  closing := false
  possiblyDurable := none

/-- `S.actions.set` and, when there is a pending interaction, `S.pending.set`. -/
def State.setAction (s : State) (action : Json) (pending : Option Json) : State :=
  { s with
    actions := s.actions.set (action.textField "action_id") action
    pending := match pending with
      | some p => s.pending.set (p.textField "inject_id") p
      | none => s.pending }

/-! ## Messages -/

structure Ack where
  txn : Text
  seq : Option Nat
  epoch : Nat
  result : Text
  basis : Text
  duplicateTxn : Bool
  effects : List Effect

/-- Owner to client. A list is posted in one message; its cutting into chunks is not modelled. -/
inductive Post where
  | state (store : StoreState) (reason : Text) (detail : Text) (epoch : Nat)
  | ack (a : Ack)
  | nack (txn reason code : Text)
  | indeterminate (txns : List Text) (reason : Text)
  | progress (phase : Text) (step : Text)
  | demoted (ids : List Text) (checkpoint : Nat)
  | readChunk (req : Text) (items : List Json) (reason tier : Text)
  | snapshotChunk (items : List Json)
  | resolveChunk (req : Text) (items : List Json)
  | closed (clean : Bool) (unresolved : Nat)

/-- A step of the owner thread. -/
abbrev Owner := Prog State Post

end Telepty.Ledger
