import Telepty.Forward.Custody
import Telepty.Forward.Routes

/-!
# A forward has one effect at most

Both routes reserve before they act, and act on a fresh reservation only. So for every run, with
failing operations, crashes and restarts wherever they fall: a key is sent on once at most, and
handed to the local handler once at most; what is recorded under the key is the request it was sent
for; and a record that is not pending any more stays so. With a steady clock and an unchanged grant,
the reservations that a peer is sent in one window are no more than the grant allows.
-/

namespace Telepty.Forward

open Infra Infra.Prog Mailbox Principal

variable {home : Path} {env : Env} {net : Addresses} {m m' : Node} {e : Event} {es : List Event}

/-! ## What was sent -/

/-- The record that an effect was reserved under. -/
def reservationOf : Effect → Option Json
  | .fetch f => some f.record
  | .pass _ record => some record
  | .reply .. => none

def reservations (m : Node) : List Json := m.sent.filterMap fun s => reservationOf s.1

def fetchOf : Effect → Option Fetch
  | .fetch f => some f
  | _ => none

/-- The calls of `fetchPeer` so far. -/
def fetches (m : Node) : List Fetch := m.sent.filterMap fun s => fetchOf s.1

def passOf : Effect → Option Text
  | .pass key _ => some key
  | _ => none

/-- The forwarding keys of the requests that went on to the local handler so far. -/
def passes (m : Node) : List Text := m.sent.filterMap fun s => passOf s.1

/-- When the key of a call was reserved. -/
def Fetch.createdAt (f : Fetch) : Nat := f.record.natField "created_at"

def Fetch.peer (f : Fetch) : Text := f.record.textField "peer"

/-- The disk at a call of `fetchPeer` has the record it is made for, with the fingerprint of the
request it is made for. -/
structure Backed (home : Path) (f : Fetch) (fs : FS) : Prop where
  recorded : observe home fs (outboundKey f.idempotencyKey) = .ok (some f.record)
  fingerprint : textOf (f.record.field "fingerprint") = some f.fingerprint
  direction : textOf (f.record.field "direction") = some "outbound"
  peer : textOf (f.record.field "peer") = some f.peer
  createdAt : f.record.field "created_at" = some (.num f.createdAt)

/-- What is so in every state of a run. -/
structure Sound (home : Path) (m : Node) : Prop where
  custody : Custody home (reservations m) m.disk
  waiting : ∀ w ∈ m.mem.waiting, w.record ∈ reservations m
  passed : ∀ r ∈ m.mem.passed, r ∈ reservations m
  backed : ∀ f fs, (Effect.fetch f, fs) ∈ m.sent → Backed home f fs
  keyed : ∀ key r fs, (Effect.pass key r, fs) ∈ m.sent → keyOf r = inboundKey key

theorem Sound.of_mem {m m' : Node} (h : Sound home m) (hsent : m'.sent = m.sent)
    (hc : Custody home (reservations m) m'.disk) (hw : m'.mem.waiting ⊆ m.mem.waiting)
    (hp : m'.mem.passed ⊆ m.mem.passed) : Sound home m' := by
  have hres : reservations m' = reservations m := by rw [reservations, hsent, reservations]
  refine ⟨hres ▸ hc, fun w hw' => hres ▸ h.waiting w (hw hw'), fun r hr => hres ▸ h.passed r (hp hr),
    fun f fs hf => h.backed f fs (hsent ▸ hf), fun key r fs hf => h.keyed key r fs (hsent ▸ hf)⟩

theorem Sound.diskOnly (h : Sound home m) (hc : Custody home (reservations m) m'.disk)
    (hd : DiskOnly m m') : Sound home m' :=
  h.of_mem hd.sent hc (hd.mem ▸ List.Subset.refl _) (hd.mem ▸ List.Subset.refl _)

theorem Sound.reads (h : Sound home m) (hr : Reads home m m') : Sound home m' :=
  h.diskOnly (h.custody.same hr.1) hr.2

theorem Sound.filled {k : Text} {b : Bytes} (h : Sound home m) (hf : Filled home k b m m') :
    Sound home m' :=
  h.diskOnly (h.custody.filled hf) hf.rest

/-- An answer is no effect. -/
theorem Sound.reply (h : Sound home m) (status : Nat) (body : Json) :
    Sound home { m with sent := m.sent ++ [(.reply status body, m.disk)] } := by
  have hres : reservations { m with sent := m.sent ++ [(.reply status body, m.disk)] }
      = reservations m := by
    simp [reservations, reservationOf]
  refine ⟨hres.symm ▸ h.custody, fun w hw => hres.symm ▸ h.waiting w hw,
    fun r hr => hres.symm ▸ h.passed r hr, fun f fs hf => ?_, fun key r fs hf => ?_⟩
  · rcases List.mem_append.mp hf with hf | hf
    · exact h.backed f fs hf
    · cases List.mem_singleton.mp hf
  · rcases List.mem_append.mp hf with hf | hf
    · exact h.keyed key r fs hf
    · cases List.mem_singleton.mp hf

/-! ## Events that send nothing on -/

/-- No call of `fetchPeer` was made, and reservations were made or ended as they may be. -/
structure Idle (home : Path) (m m' : Node) : Prop where
  sound : Sound home m'
  fetches : fetches m' = fetches m
  moves : Moves home m.disk m'.disk

/-- However a program ends, it has sent nothing on. -/
def idle (home : Path) (m : Node) (α : Type) : Ensures Memory Effect α :=
  ⟨fun _ m' => Idle home m m', fun _ m' => Idle home m m', fun m' => Idle home m m'⟩

theorem Idle.refl (h : Sound home m) : Idle home m m := ⟨h, rfl, .refl _⟩

theorem fetches_of_sent {m m' : Node} (h : m'.sent = m.sent) : fetches m' = fetches m := by
  rw [fetches, h, fetches]

theorem Idle.reads {a b c : Node} (h : Idle home a b) (hr : Reads home b c) : Idle home a c :=
  ⟨h.sound.reads hr, (fetches_of_sent hr.2.sent).trans h.fetches, h.moves.trans hr.1.moves⟩

theorem Idle.reply {a b : Node} (h : Idle home a b) (status : Nat) (body : Json) :
    Idle home a { b with sent := b.sent ++ [(.reply status body, b.disk)] } := by
  refine ⟨h.sound.reply status body, Eq.trans ?_ h.fetches, h.moves⟩
  simp [Forward.fetches, fetchOf]

theorem Idle.filled {a b c : Node} {k : Text} {bytes : Bytes} (h : Idle home a b)
    (hf : Filled home k bytes b c) : Idle home a c :=
  ⟨h.sound.filled hf, (fetches_of_sent hf.rest.sent).trans h.fetches, h.moves.trans hf.moves⟩

/-- A step that only forgets. -/
theorem Idle.forget {a b : Node} (h : Idle home a b) {s : Memory} (hw : s.waiting ⊆ b.mem.waiting)
    (hp : s.passed ⊆ b.mem.passed) : Idle home a { b with mem := s } :=
  ⟨h.sound.of_mem rfl h.sound.custody hw hp, h.fetches, h.moves⟩

theorem wp_sendError {a : Node} {e : Failure} (h : Idle home a m) :
    wp (post (sendError e)) (idle home a Unit) m := by
  rw [wp_post, sendError]
  cases statusOf e.code with
  | some status => exact h.reply _ _
  | none => exact h.reply _ _

/-- A record that agrees with what is in custody may be written. -/
theorem wp_stored {record : Json} {a : Node} {Q : Ensures Memory Effect Bool}
    (h : Idle home a m)
    (hag : ∀ r ∈ reservations m, keyOf r = keyOf record → Agrees r record)
    (hstate : recordState record ≠ ("pending" : Text))
    (hd : ∀ done m', Idle home a m' → m'.mem = m.mem → Q.done done m')
    (hc : ∀ m', Idle home a m' → Q.crashed m') : wp (stored home env record) Q m := by
  have hidle : ∀ m', ReplacedOrNot home record m m' → Idle home a m' ∧ m'.mem = m.mem := by
    intro m' hr
    have hrest : DiskOnly m m' := by
      rcases hr with hr | ⟨-, -, hr⟩
      · exact hr.2
      · exact hr.rest
    exact ⟨⟨h.sound.diskOnly (h.sound.custody.replacedOrNot hag hr) hrest,
      (fetches_of_sent hrest.sent).trans h.fetches, h.moves.trans (hr.moves hstate)⟩, hrest.mem⟩
  rw [stored, wp_catching, wp_bind]
  exact wp_write_over (fun m' hr => hd true m' (hidle m' hr).1 (hidle m' hr).2)
    (fun e m' hr => hd false m' (hidle m' hr).1 (hidle m' hr).2) fun m' hr => hc m' (hidle m' hr).1

theorem agrees_unknownOutcome (r : Json) (code : Text) : Agrees r (unknownOutcome r code) :=
  agrees_spread (by simp only [List.map_cons, List.map_nil]; decide)

/-- The members that end a reservation set its result only. -/
theorem agrees_outcomeOf (w : Waiting) (answer : Answer) : Agrees w.record (outcomeOf w answer) := by
  unfold outcomeOf
  split
  · exact agrees_spread (by simp only [List.map_cons, List.map_nil]; decide)
  · exact agrees_unknownOutcome _ _
  · split
    · split
      · exact agrees_spread (by simp only [List.map_cons, List.map_nil]; decide)
      · exact agrees_unknownOutcome _ _
    · split
      · exact agrees_unknownOutcome _ _
      · exact agrees_spread (by simp only [List.map_cons, List.map_nil]; decide)

theorem outcomeOf_not_pending (w : Waiting) (answer : Answer) :
    recordState (outcomeOf w answer) ≠ ("pending" : Text) := by
  have hunknown : ∀ code, recordState (unknownOutcome w.record code) ≠ ("pending" : Text) := by
    intro code
    rw [unknownOutcome, recordState_spread _ _ (by simp only [List.map_cons, List.map_nil]; decide)]
    decide
  unfold outcomeOf
  split
  · rw [recordState_spread _ _ (by simp only [List.map_cons, List.map_nil]; decide)]
    decide
  · exact hunknown _
  · split
    · split
      · rw [recordState_spread _ _ (by simp only [List.map_cons, List.map_nil]; decide)]
        decide
      · exact hunknown _
    · split
      · exact hunknown _
      · rw [recordState_spread _ _ (by simp only [List.map_cons, List.map_nil]; decide)]
        split <;> decide

theorem localState_ne_pending (statusCode : Nat) (body : Json) :
    localState statusCode body ≠ ("pending" : Text) := by
  rw [localState]
  split
  · decide
  · split <;> decide

theorem idle_answered (h : Sound home m) (i : Nat) (answer : Answer) :
    wp (answered home env i answer) (idle home m Unit) m := by
  rw [answered, wp_bind, wp_get]
  dsimp only
  cases hw : m.mem.waiting[i]? with
  | none => exact Idle.refl h
  | some w =>
    dsimp only
    rw [wp_bind, wp_modify]
    dsimp only
    have hmem : w.record ∈ reservations m := h.waiting w (List.mem_of_getElem? hw)
    have hforget : Idle home m
        { m with mem := { m.mem with waiting := m.mem.waiting.eraseIdx i } } :=
      (Idle.refl h).forget (List.eraseIdx_subset ..) (List.Subset.refl _)
    rw [wp_bind]
    refine wp_stored hforget (h.custody.agrees_of_mem hmem (agrees_outcomeOf w answer))
      (outcomeOf_not_pending w answer) (fun done m' hidle hm => ?_) fun m' hidle => hidle
    dsimp only
    rw [wp_bind, wp_get]
    dsimp only
    have herase : ∀ m'', Idle home m m'' → wp (modify fun s =>
        { s with active := s.active.erase (w.record.textField "receipt_id") })
        (idle home m Unit) m'' := fun m'' hi =>
      hi.forget (List.Subset.refl _) (List.Subset.refl _)
    cases done with
    | true =>
      rw [if_pos rfl, wp_bind, wp_post]
      exact herase _ (hidle.reply _ _)
    | false =>
      rw [if_neg Bool.false_ne_true, wp_bind, wp_post]
      exact herase _ (hidle.reply _ _)

theorem idle_query (h : Sound home m) (key : Text) :
    wp (query home env key) (idle home m Unit) m := by
  have hrefuse : ∀ {a : Node} (e : Failure), Idle home m a →
      wp (raise e : Prog Memory Effect Unit) ⟨fun _ m' => Idle home m m',
        fun e m' => wp (post (sendError e)) (idle home m Unit) m', fun m' => Idle home m m'⟩ a :=
    fun _ hi => wp_sendError hi
  rw [query, wp_catching]
  split
  · rw [wp_bind, wp_get]
    dsimp only
    rw [wp_bind]
    refine wp_read (fun m' found hm _ _ => ?_) (fun e m' hm => wp_sendError ((Idle.refl h).reads hm))
      fun m' hm => (Idle.refl h).reads hm
    have hi : Idle home m m' := (Idle.refl h).reads hm
    dsimp only
    cases found with
    | none => exact hrefuse _ hi
    | some record =>
      dsimp only
      split
      · exact hi.reply _ _
      · exact hrefuse _ hi
  · exact hrefuse _ (Idle.refl h)

theorem idle_answeredLocally (h : Sound home m) (i statusCode : Nat) (body : Json) :
    wp (answeredLocally home env i statusCode body) (idle home m Unit) m := by
  rw [answeredLocally, wp_bind, wp_get]
  dsimp only
  cases hr : m.mem.passed[i]? with
  | none => exact Idle.refl h
  | some record =>
    dsimp only
    rw [wp_bind]
    have hmem : record ∈ reservations m := h.passed record (List.mem_of_getElem? hr)
    have hstate : recordState (spread record [("state", .str (localState statusCode body)),
        ("remote_status", .num statusCode), ("remote_receipt", safeReceipt body)])
        ≠ ("pending" : Text) := by
      rw [recordState_spread _ _ (by simp only [List.map_cons, List.map_nil]; decide)]
      exact localState_ne_pending _ _
    refine wp_stored (Idle.refl h)
      (h.custody.agrees_of_mem hmem (agrees_spread (by simp only [List.map_cons, List.map_nil]; decide)))
      hstate (fun done m' hidle _ => ?_) fun m' hidle => hidle
    cases done with
    | true => exact hidle.reply _ _
    | false => exact hidle.reply _ _

/-! ## Passing a request on -/

/-- A request that is passed on is reserved for it. -/
theorem Idle.pass {a b : Node} {key : Text} {record : Json} (h : Idle home a b)
    {c : Node} (hc : Custody home (reservations b ++ [record]) c.disk) (hd : DiskOnly b c)
    (hm : Moves home b.disk c.disk) (hkey : keyOf record = inboundKey key) :
    Idle home a { c with
      mem := { c.mem with passed := c.mem.passed ++ [record] }
      sent := c.sent ++ [(.pass key record, c.disk)] } := by
  have hsent := hd.sent
  have hres : reservations { c with
      mem := { c.mem with passed := c.mem.passed ++ [record] }
      sent := c.sent ++ [(.pass key record, c.disk)] } = reservations b ++ [record] := by
    simp [reservations, reservationOf, hsent]
  refine ⟨⟨hres ▸ hc, fun w hw => ?_, fun r hr => ?_, fun f fs hf => ?_, fun key' r fs hf => ?_⟩, ?_,
    h.moves.trans hm⟩
  · rw [hres]
    exact List.mem_append_left _ (h.sound.waiting w (hd.mem ▸ hw))
  · rw [hres]
    rcases List.mem_append.mp hr with hr | hr
    · exact List.mem_append_left _ (h.sound.passed r (hd.mem ▸ hr))
    · exact List.mem_append_right _ hr
  · rcases List.mem_append.mp hf with hf | hf
    · exact h.sound.backed f fs (hsent ▸ hf)
    · cases List.mem_singleton.mp hf
  · rcases List.mem_append.mp hf with hf | hf
    · exact h.sound.keyed key' r fs (hsent ▸ hf)
    · cases List.mem_singleton.mp hf
      exact hkey
  · exact Eq.trans (by simp [Forward.fetches, fetchOf, hsent]) h.fetches

theorem idle_forwarded (h : Sound home m) (req : ForwardedRequest) :
    wp (forwarded home env req) (idle home m Unit) m := by
  have hnames : ("receipt_id" : Text) ∉ (inboundMetadata req).map Prod.fst := by
    simp only [inboundMetadata, List.map_cons, List.map_nil]
    decide
  rw [forwarded, wp_catching, wp_bind, wp_ofExcept]
  cases targetValid req with
  | error e => exact wp_sendError (Idle.refl h)
  | ok u =>
    dsimp only
    rw [wp_bind]
    have hpart : ∀ m', (Reads home m m' ∨ ∃ b, Filled home (inboundKey (forwardingKey req.body)) b m m') →
        Idle home m m' := by
      rintro m' (hr | ⟨b, hf⟩)
      · exact (Idle.refl h).reads hr
      · exact (Idle.refl h).filled hf
    refine wp_reserve hnames (fun m' record hf => ?_) (fun m' record hr _ _ _ => ?_)
      (fun e m' hm => wp_sendError (hpart m' hm)) hpart
    · dsimp only
      obtain ⟨t, -, hrec⟩ := hf.record
      have hkey : keyOf record = inboundKey (forwardingKey req.body) := by
        rw [hrec, keyOf_pendingRecord hnames]
      rw [if_pos rfl, wp_bind, wp_modify]
      exact Idle.pass (Idle.refl h) (h.custody.fresh hf hkey) hf.filled.rest hf.filled.moves hkey
    · dsimp only
      rw [if_neg Bool.false_ne_true, wp_bind, wp_get]
      exact ((Idle.refl h).reads hr).reply _ _

/-! ## Sending a request on -/

theorem pendingRecord_outbound (key fingerprint : Text) (createdAt : Nat) (req : SendRequest)
    (body : Json) : pendingRecord key fingerprint createdAt (outboundMetadata req body) =
      .obj [("receipt_id", .str key), ("fingerprint", .str fingerprint),
        ("created_at", .num createdAt), ("state", .str "pending"), ("direction", .str "outbound"),
        ("peer", .str req.peer), ("session", .str req.sid),
        ("expected_epoch", .str (body.textField "expected_epoch"))] := rfl

/-- What a reservation of the origin holds. -/
structure Outbound (key fingerprint : Text) (createdAt : Nat) (req : SendRequest) (record : Json) :
    Prop where
  key : keyOf record = key
  fingerprint : textOf (record.field "fingerprint") = some fingerprint
  createdAt : record.field "created_at" = some (.num createdAt)
  direction : textOf (record.field "direction") = some "outbound"
  peer : textOf (record.field "peer") = some req.peer

theorem Outbound.natField {key fingerprint : Text} {createdAt : Nat} {req : SendRequest}
    {record : Json} (h : Outbound key fingerprint createdAt req record) :
    record.natField "created_at" = createdAt := by
  rw [Json.natField, h.createdAt]
  rfl

theorem Outbound.textField {key fingerprint : Text} {createdAt : Nat} {req : SendRequest}
    {record : Json} (h : Outbound key fingerprint createdAt req record) :
    record.textField "peer" = req.peer := by
  rw [Json.textField, ← textOf, h.peer]
  rfl

theorem outbound_pendingRecord (key fingerprint : Text) (createdAt : Nat) (req : SendRequest)
    (body : Json) : Outbound key fingerprint createdAt req
      (pendingRecord key fingerprint createdAt (outboundMetadata req body)) := by
  rw [pendingRecord_outbound]
  exact ⟨rfl, rfl, rfl, rfl, rfl⟩

/-- A reservation of the origin that is on the disk reads as it is. -/
theorem recordIn_outbound {key fingerprint : Text} {createdAt : Nat} {req : SendRequest}
    {body : Json} (hfp : digestText fingerprint = true)
    (hsmall : (bytesOf (pendingRecord key fingerprint createdAt (outboundMetadata req body))).length
      ≤ maxRecordBytes) :
    recordIn key (bytesOf (pendingRecord key fingerprint createdAt (outboundMetadata req body))) =
      some (pendingRecord key fingerprint createdAt (outboundMetadata req body)) := by
  refine recordIn_bytesOf hsmall ?_ ?_ ?_ ?_ ?_ ?_ <;> rw [pendingRecord_outbound]
  · rfl
  · rfl
  · rfl
  · exact hfp
  · rfl
  · rfl

theorem digestText_outboundFingerprint (req : SendRequest) (origin : Text) (body : Json) :
    digestText (outboundFingerprint req origin body) = true := digestText_hash _

/-- The budget that a call was let through on: the records that count against it, as they were
read, are fewer than the grant allows. -/
structure Afforded (home : Path) (env : Env) (net : Addresses) (req : SendRequest) (fs : FS)
    (f : Fetch) : Prop where
  peer : f.peer = req.peer
  budget : ∃ body peer grant origin s t, ∃ records : List Json,
    admitted net req = .ok (body, peer, grant, origin) ∧ s ≤ t ∧ f.createdAt = env.now t ∧
    (∀ k, digestText k = true → slot home fs k ≠ none →
      ∃ r ∈ records, observe home fs k = .ok (some r)) ∧
    (records.filter (counts req.peer grant.windowMs (env.now s))).length < grant.maxRequests

/-- What a request to send leaves: nothing was sent on, or one call was made. -/
def SentOnce (home : Path) (env : Env) (net : Addresses) (req : SendRequest) (m m' : Node) : Prop :=
  Idle home m m' ∨ (Sound home m' ∧ Moves home m.disk m'.disk ∧
    ∃ f, fetches m' = fetches m ++ [f] ∧ Afforded home env net req m.disk f)

/-- The budget, where nothing is reserved under the key. -/
theorem wp_spend {peer : Text} {grant : Grant} {existing : Option Json}
    {Q : Ensures Memory Effect Unit}
    (hd : ∀ m', Reads home m m' → (existing = none → ∃ s, ∃ records : List Json, s ≤ m'.tick ∧
      (∀ k, digestText k = true → slot home m.disk k ≠ none →
        ∃ r ∈ records, observe home m.disk k = .ok (some r)) ∧
      (records.filter (counts peer grant.windowMs (env.now s))).length < grant.maxRequests) →
      Q.done () m')
    (hr : ∀ e m', Reads home m m' → Q.raised e m')
    (hc : ∀ m', Reads home m m' → Q.crashed m') : wp (spend home env peer grant existing) Q m := by
  cases existing with
  | some r => exact hd m (.refl m) nofun
  | none =>
    rw [spend, if_pos Option.isNone_none, wp_bind]
    refine wp_all (fun m' records hm hall _ => ?_) hr hc
    dsimp only
    rw [wp_bind, wp_now]
    dsimp only
    split
    · exact hr _ m' hm
    · next hlt =>
      exact hd m' hm fun _ => ⟨m'.tick, records, Nat.le_refl _, hall, Nat.lt_of_not_le hlt⟩

/-- A call is made for a reservation that is on the disk. -/
theorem Sound.fetch {a b c : Node} {f : Fetch} (active : List Text) (h : Idle home a b)
    (hc : Custody home (reservations b ++ [f.record]) c.disk) (hd : DiskOnly b c)
    (hback : Backed home f c.disk) {w : Waiting} (hw : w.record = f.record) :
    Sound home { c with
        mem := { c.mem with active := active, waiting := c.mem.waiting ++ [w] }
        sent := c.sent ++ [(.fetch f, c.disk)] } ∧
      fetches { c with
        mem := { c.mem with active := active, waiting := c.mem.waiting ++ [w] }
        sent := c.sent ++ [(.fetch f, c.disk)] } = fetches a ++ [f] := by
  have hsent := hd.sent
  have hres : reservations { c with
      mem := { c.mem with active := active, waiting := c.mem.waiting ++ [w] }
      sent := c.sent ++ [(.fetch f, c.disk)] } = reservations b ++ [f.record] := by
    simp [reservations, reservationOf, hsent]
  refine ⟨⟨hres ▸ hc, fun w' hw' => ?_, fun r hr => ?_, fun f' fs hf => ?_, fun key' r fs hf => ?_⟩, ?_⟩
  · rw [hres]
    rcases List.mem_append.mp hw' with hw' | hw'
    · exact List.mem_append_left _ (h.sound.waiting w' (hd.mem ▸ hw'))
    · obtain rfl := List.mem_singleton.mp hw'
      rw [hw]
      exact List.mem_append_right _ (List.mem_singleton_self _)
  · rw [hres]
    exact List.mem_append_left _ (h.sound.passed r (hd.mem ▸ hr))
  · rcases List.mem_append.mp hf with hf | hf
    · exact h.sound.backed f' fs (hsent ▸ hf)
    · cases List.mem_singleton.mp hf
      exact hback
  · rcases List.mem_append.mp hf with hf | hf
    · exact h.sound.keyed key' r fs (hsent ▸ hf)
    · cases List.mem_singleton.mp hf
  · rw [← h.fetches]
    simp [fetches, fetchOf, hsent]

/-- **A request to send** makes one call at most, on a fresh reservation that its budget allowed. -/
theorem sentOnce_send (h : Sound home m) (req : SendRequest) :
    wp (send home env net req) ⟨fun _ m' => SentOnce home env net req m m',
      fun _ m' => SentOnce home env net req m m', fun m' => SentOnce home env net req m m'⟩ m := by
  have hidle : ∀ {x : Prog Memory Effect Unit} {a : Node}, wp x (idle home m Unit) a →
      wp x ⟨fun _ m' => SentOnce home env net req m m', fun _ m' => SentOnce home env net req m m',
        fun m' => SentOnce home env net req m m'⟩ a := fun hx =>
    wp_mono hx (fun _ _ hi => .inl hi) (fun _ _ hi => .inl hi) fun _ hi => .inl hi
  have hrefuse : ∀ (e : Failure) (a : Node), Idle home m a →
      wp (post (sendError e)) ⟨fun _ m' => SentOnce home env net req m m',
        fun _ m' => SentOnce home env net req m m', fun m' => SentOnce home env net req m m'⟩ a :=
    fun e a hi => hidle (wp_sendError hi)
  rw [send, wp_catching, wp_bind, wp_ofExcept]
  cases hadm : admitted net req with
  | error e => exact hrefuse e m (Idle.refl h)
  | ok granted =>
    obtain ⟨body, peer, grant, origin⟩ := granted
    dsimp only
    rw [wp_bind]
    refine wp_read (fun m₁ existing h₁ hkey hfound => ?_)
      (fun e m' hm => hrefuse e m' ((Idle.refl h).reads hm)) fun m' hm => .inl ((Idle.refl h).reads hm)
    dsimp only
    rw [wp_bind]
    refine wp_spend (fun m₂ h₂ hbudget => ?_)
      (fun e m' hm => hrefuse e m' ((Idle.refl h).reads (h₁.trans hm)))
      fun m' hm => .inl ((Idle.refl h).reads (h₁.trans hm))
    have hreads : Reads home m m₂ := h₁.trans h₂
    have hidle₂ : Idle home m m₂ := (Idle.refl h).reads hreads
    dsimp only
    rw [wp_bind]
    have hpart : ∀ m', (Reads home m₂ m' ∨
        ∃ b, Filled home (outboundKey (idempotencyKey req.body)) b m₂ m') → Idle home m m' := by
      rintro m' (hr | ⟨b, hf⟩)
      · exact hidle₂.reads hr
      · exact hidle₂.filled hf
    have hnames : ("receipt_id" : Text) ∉ (outboundMetadata req body).map Prod.fst := by
      simp only [outboundMetadata, List.map_cons, List.map_nil]
      decide
    refine wp_reserve hnames (fun m₃ record hf => ?_) (fun m' record hr _ _ _ => ?_)
      (fun e m' hm => hrefuse e m' (hpart m' hm)) fun m' hm => .inl (hpart m' hm)
    · dsimp only
      rw [if_pos rfl, dispatch, wp_bind, wp_modify]
      dsimp only
      rw [wp_bind, wp_now]
      dsimp only
      rw [wp_bind, wp_post]
      dsimp only
      rw [wp_modify]
      obtain ⟨t, ht, hrec⟩ := hf.record
      have hout := outbound_pendingRecord (outboundKey (idempotencyKey req.body))
        (outboundFingerprint req origin body) (env.now t) req body
      have hin := recordIn_outbound (digestText_outboundFingerprint req origin body)
        (hrec ▸ hf.small)
      rw [← hrec] at hout hin
      -- the slot was empty, so nothing was read under the key
      have hnone : existing = none := by
        cases existing with
        | none => rfl
        | some r =>
          refine absurd hf.filled.empty ?_
          rw [hreads.1 _ hkey]
          exact ne_none_of_observe hfound
      obtain ⟨s, records, hs, hall, hlt⟩ := hbudget hnone
      have hcustody := hidle₂.sound.custody.fresh hf hout.key
      have hback : ∀ f : Fetch, f.record = record →
          f.idempotencyKey = idempotencyKey req.body →
          f.fingerprint = outboundFingerprint req origin body → Backed home f m₃.disk := by
        rintro f rfl hk hfp
        refine ⟨hk ▸ observe_of_full hf.filled.full hin, hfp ▸ hout.fingerprint, hout.direction, ?_, ?_⟩
        · rw [Fetch.peer, hout.textField, hout.peer]
        · rw [Fetch.createdAt, hout.natField, hout.createdAt]
      have hafford : ∀ f : Fetch, f.record = record → Afforded home env net req m.disk f := by
        rintro f rfl
        refine ⟨hout.textField, body, peer, grant, origin, s, t, records, hadm, Nat.le_trans hs ht,
          hout.natField, fun k hk hslot => ?_, hlt⟩
        obtain ⟨r, hr, hobs⟩ := hall k hk (by rwa [h₁.1 k hk])
        exact ⟨r, hr, by rwa [observe_congr (h₁.1 k hk)] at hobs⟩
      have hfetch := fun (f : Fetch) (hr : f.record = record) hback =>
        Sound.fetch (record.textField "receipt_id" :: m₃.mem.active) (w := ⟨record, req.sid⟩)
          hidle₂ (hr ▸ hcustody) hf.filled.rest (f := f) hback hr.symm
      refine .inr ((hfetch _ ?_ ?_).imp_right fun hnew =>
        ⟨hidle₂.moves.trans hf.filled.moves, _, hnew, ?_⟩)
      · rfl
      · exact hback _ rfl rfl rfl
      · exact hafford _ rfl
    · dsimp only
      rw [if_neg Bool.false_ne_true, wp_bind, wp_get]
      exact .inl ((hidle₂.reads hr).reply _ _)

/-! ## Runs -/

/-- What one event leaves. -/
def Advance (home : Path) (env : Env) (net : Addresses) (e : Event) (m m' : Node) : Prop :=
  Idle home m m' ∨ (Sound home m' ∧ Moves home m.disk m'.disk ∧
    ∃ req f, e = .send req ∧ fetches m' = fetches m ++ [f] ∧ Afforded home env net req m.disk f)

theorem Advance.sound (h : Advance home env net e m m') : Sound home m' := by
  rcases h with h | ⟨h, -⟩
  · exact h.sound
  · exact h

theorem Advance.moves (h : Advance home env net e m m') : Moves home m.disk m'.disk := by
  rcases h with h | ⟨-, h, -⟩
  · exact h.moves
  · exact h

/-- A process that dies forgets; nothing else is lost. -/
theorem Advance.died (h : Advance home env net e m m') :
    Advance home env net e m { m' with mem := {} } := by
  rcases h with h | ⟨h, hm, hf⟩
  · exact .inl (h.forget (List.nil_subset _) (List.nil_subset _))
  · exact .inr ⟨h.of_mem rfl h.custody (List.nil_subset _) (List.nil_subset _), hm, hf⟩

theorem advance_handle (env : Env) (net : Addresses) (h : Sound home m) (e : Event) :
    wp (handle home env net e) ⟨fun _ m' => Advance home env net e m m',
      fun _ m' => Advance home env net e m m', fun m' => Advance home env net e m m'⟩ m := by
  have hidle : ∀ {x : Prog Memory Effect Unit}, wp x (idle home m Unit) m →
      wp x ⟨fun _ m' => Advance home env net e m m', fun _ m' => Advance home env net e m m',
        fun m' => Advance home env net e m m'⟩ m := fun hx =>
    wp_mono hx (fun _ _ hi => .inl hi) (fun _ _ hi => .inl hi) fun _ hi => .inl hi
  cases e with
  | send req =>
    have hsent : ∀ m', SentOnce home env net req m m' →
        Advance home env net (.send req) m m' := by
      rintro m' (hi | ⟨hs, hm, f, hf, haff⟩)
      · exact .inl hi
      · exact .inr ⟨hs, hm, req, f, rfl, hf, haff⟩
    exact wp_mono (sentOnce_send h req) (fun _ m' => hsent m') (fun _ m' => hsent m') hsent
  | answered i answer => exact hidle (idle_answered h i answer)
  | query key => exact hidle (idle_query h key)
  | forwarded req => exact hidle (idle_forwarded h req)
  | answeredLocally i statusCode body => exact hidle (idle_answeredLocally h i statusCode body)
  | restart =>
    exact .inl ((Idle.refl h).forget (List.nil_subset _) (List.nil_subset _))

theorem advance_step (env : Env) (net : Addresses) (h : Sound home m) (e : Event) :
    Advance home env net e m (step home env net m e) := by
  have hw := advance_handle env net h e
  unfold wp at hw
  unfold step
  split
  · next heq => rw [heq] at hw; exact hw
  · next heq => rw [heq] at hw; exact hw
  · next heq => rw [heq] at hw; exact hw.died

theorem sound_fresh (home : Path) (fs : FS) : Sound home (fresh fs) :=
  ⟨.nil fs, fun _ h => absurd h List.not_mem_nil, fun _ h => absurd h List.not_mem_nil,
    fun _ _ h => absurd h List.not_mem_nil, fun _ _ _ h => absurd h List.not_mem_nil⟩

/-- Every state of a run is sound. -/
theorem sound_run (env : Env) (net : Addresses) (h : Sound home m) (es : List Event) : Sound home (run home env net m es) := by
  induction es generalizing m with
  | nil => exact h
  | cons e es ih => exact ih (advance_step env net h e).sound

theorem moves_run (env : Env) (net : Addresses) (h : Sound home m) (es : List Event) :
    Moves home m.disk (run home env net m es).disk := by
  induction es generalizing m with
  | nil => exact .refl _
  | cons e es ih =>
    have hstep := advance_step env net h e
    exact hstep.moves.trans (ih hstep.sound)

/-! ## Keys -/

theorem fetches_keys_sublist {sent : List (Effect × FS)}
    (h : ∀ f fs, (Effect.fetch f, fs) ∈ sent → keyOf f.record = outboundKey f.idempotencyKey) :
    ((sent.filterMap fun s => fetchOf s.1).map fun f => outboundKey f.idempotencyKey).Sublist
      ((sent.filterMap fun s => reservationOf s.1).map keyOf) := by
  induction sent with
  | nil => exact List.Sublist.refl _
  | cons x sent ih =>
    obtain ⟨e, fs⟩ := x
    have hrest := ih fun f fs hf => h f fs (List.mem_cons_of_mem _ hf)
    cases e with
    | fetch f =>
      have hkey := h f fs List.mem_cons_self
      simp only [List.filterMap_cons, fetchOf, reservationOf, List.map_cons, hkey]
      exact hrest.cons_cons _
    | pass key record => exact hrest.cons _
    | reply status body => exact hrest

theorem passes_keys_sublist {sent : List (Effect × FS)}
    (h : ∀ key r fs, (Effect.pass key r, fs) ∈ sent → keyOf r = inboundKey key) :
    ((sent.filterMap fun s => passOf s.1).map inboundKey).Sublist
      ((sent.filterMap fun s => reservationOf s.1).map keyOf) := by
  induction sent with
  | nil => exact List.Sublist.refl _
  | cons x sent ih =>
    obtain ⟨e, fs⟩ := x
    have hrest := ih fun key r fs hf => h key r fs (List.mem_cons_of_mem _ hf)
    cases e with
    | fetch f => exact hrest.cons _
    | pass key record =>
      have hkey := h key record fs List.mem_cons_self
      simp only [List.filterMap_cons, passOf, reservationOf, List.map_cons, hkey]
      exact hrest.cons_cons _
    | reply status body => exact hrest

theorem Sound.keyOf_fetch (h : Sound home m) {f : Fetch} {fs : FS}
    (hf : (Effect.fetch f, fs) ∈ m.sent) : keyOf f.record = outboundKey f.idempotencyKey :=
  keyOf_of_observe (h.backed f fs hf).recorded

theorem Sound.nodup_outboundKeys (h : Sound home m) :
    ((fetches m).map fun f => outboundKey f.idempotencyKey).Nodup :=
  h.custody.nodup.sublist (fetches_keys_sublist fun _ _ hf => h.keyOf_fetch hf)

theorem Sound.nodup_idempotencyKeys (h : Sound home m) :
    ((fetches m).map Fetch.idempotencyKey).Nodup := by
  have hnodup := h.nodup_outboundKeys
  rw [← Function.comp_def outboundKey, ← List.map_map] at hnodup
  exact hnodup.of_map

theorem Sound.nodup_passes (h : Sound home m) : (passes m).Nodup :=
  (h.custody.nodup.sublist (passes_keys_sublist h.keyed)).of_map

theorem exists_of_mem_fetches {f : Fetch} (hf : f ∈ fetches m) :
    ∃ fs, (Effect.fetch f, fs) ∈ m.sent := by
  obtain ⟨⟨e, fs⟩, hmem, he⟩ := List.mem_filterMap.mp hf
  cases e with
  | fetch g =>
    obtain rfl := Option.some.inj he
    exact ⟨fs, hmem⟩
  | pass key record => cases he
  | reply status body => cases he

theorem mem_reservations_of_fetch {f : Fetch} (hf : f ∈ fetches m) : f.record ∈ reservations m := by
  obtain ⟨fs, hmem⟩ := exists_of_mem_fetches hf
  exact List.mem_filterMap.mpr ⟨_, hmem, rfl⟩

/-- Whatever can be read under the key of a call is what it was made for, but for its result. -/
theorem Sound.agrees_of_observe (h : Sound home m) {f : Fetch} {r : Json} (hf : f ∈ fetches m)
    (hobs : observe home m.disk (outboundKey f.idempotencyKey) = .ok (some r)) :
    Agrees f.record r := by
  obtain ⟨fs, hmem⟩ := exists_of_mem_fetches hf
  exact (h.custody.kept _ (mem_reservations_of_fetch hf)).read r (h.keyOf_fetch hmem ▸ hobs)

/-! ## The budget -/

/-- The clock does not go back. -/
def Steady (env : Env) : Prop := ∀ s t, s ≤ t → env.now s ≤ env.now t

/-- Every request to the peer is sent under one grant. -/
def GrantUnchanged (net : Addresses) (es : List Event) (peer : Text) (maxRequests windowMs : Nat) :
    Prop :=
  ∀ req, Event.send req ∈ es → req.peer = peer → ∀ body p grant origin,
    admitted net req = .ok (body, p, grant, origin) →
      grant.maxRequests = maxRequests ∧ grant.windowMs = windowMs

/-- The calls to a peer. -/
def callsTo (peer : Text) (m : Node) : List Fetch := (fetches m).filter fun f => f.peer = peer

/-- The calls before each that were reserved less than a window before it are fewer than the
bound. -/
def Spent (maxRequests windowMs : Nat) (calls : List Fetch) : Prop :=
  ∀ before f after, calls = before ++ f :: after →
    (before.filter fun g => f.createdAt ≤ g.createdAt + windowMs).length < maxRequests

theorem Spent.snoc {n w : Nat} {calls : List Fetch} {f : Fetch} (h : Spent n w calls)
    (hf : (calls.filter fun g => f.createdAt ≤ g.createdAt + w).length < n) :
    Spent n w (calls ++ [f]) := by
  intro before g after heq
  rcases List.eq_nil_or_concat after with rfl | ⟨after, last, rfl⟩
  · obtain ⟨rfl, hg⟩ := List.append_inj' heq rfl
    rwa [← List.singleton_inj.mp hg]
  · rw [List.concat_eq_append, ← List.cons_append, ← List.append_assoc] at heq
    exact h before g after (List.append_inj' heq rfl).1

/-- **What was spent fits into every window.** -/
theorem Spent.window {n w : Nat} {calls : List Fetch} (h : Spent n w calls) (t : Nat) :
    (calls.filter fun f => t ≤ f.createdAt ∧ f.createdAt ≤ t + w).length ≤ n := by
  induction calls using List.reverseRecOn with
  | nil => exact Nat.zero_le n
  | append_singleton calls f ih =>
    have hbefore : Spent n w calls := fun before g after heq =>
      h before g (after ++ [f]) (by rw [heq, List.append_assoc, List.cons_append])
    rw [List.filter_append, List.length_append]
    by_cases hf : t ≤ f.createdAt ∧ f.createdAt ≤ t + w
    · have hlt := h calls f [] rfl
      have hle : (calls.filter fun f => t ≤ f.createdAt ∧ f.createdAt ≤ t + w).length
          ≤ (calls.filter fun g => f.createdAt ≤ g.createdAt + w).length := by
        refine (List.monotone_filter_right calls fun g hg => ?_).length_le
        have hg := of_decide_eq_true hg
        exact decide_eq_true (by omega)
      have hone : ([f].filter fun f => t ≤ f.createdAt ∧ f.createdAt ≤ t + w).length ≤ 1 :=
        List.length_filter_le _ _
      omega
    · have hnone : ([f].filter fun f => t ≤ f.createdAt ∧ f.createdAt ≤ t + w) = [] := by
        simpa using hf
      rw [hnone]
      exact ih hbefore

/-- A call to the peer that was reserved less than a window ago is among the records that count. -/
theorem counts_of_mem {peer : Text} {w now : Nat} {f : Fetch} (h : Sound home m)
    (hf : f ∈ fetches m) (hpeer : f.peer = peer) (hnow : now ≤ f.createdAt + w)
    {records : List Json} (hall : ∀ k, digestText k = true → slot home m.disk k ≠ none →
      ∃ r ∈ records, observe home m.disk k = .ok (some r)) :
    outboundKey f.idempotencyKey ∈ (records.filter (counts peer w now)).map keyOf := by
  obtain ⟨fs, hmem⟩ := exists_of_mem_fetches hf
  have hback := h.backed f fs hmem
  have hkey := h.keyOf_fetch hmem
  have hkept := h.custody.kept _ (mem_reservations_of_fetch hf)
  obtain ⟨r, hr, hobs⟩ := hall _ hkept.valid hkept.occupied
  have hag : Agrees f.record r := hkept.read r hobs
  rw [← hkey]
  refine List.mem_map.mpr ⟨r, List.mem_filter.mpr ⟨hr, ?_⟩, keyOf_of_observe hobs⟩
  have hcount : (now : Int) ≤ (f.createdAt : Int) + w := by omega
  rw [counts, hag "direction" (by decide), hag "peer" (by decide), hag "created_at" (by decide),
    hback.direction, hback.peer, hback.createdAt, hpeer]
  simpa using hcount

theorem afforded_spent {peer : Text} {n w : Nat} {req : SendRequest} {f : Fetch} (h : Sound home m)
    (hsteady : Steady env) (hpeer : req.peer = peer)
    (hgrant : ∀ body p grant origin, admitted net req = .ok (body, p, grant, origin) →
      grant.maxRequests = n ∧ grant.windowMs = w)
    (hf : Afforded home env net req m.disk f) (hs : Spent n w (callsTo peer m)) :
    Spent n w (callsTo peer m ++ [f]) := by
  obtain ⟨body, p, grant, origin, s, t, records, hadm, hst, hcreated, hall, hlt⟩ := hf.budget
  obtain ⟨rfl, rfl⟩ := hgrant body p grant origin hadm
  have hnow : env.now s ≤ f.createdAt := hcreated ▸ hsteady s t hst
  have hcounted : (((callsTo peer m).filter fun g => f.createdAt ≤ g.createdAt + grant.windowMs).map
      fun g => outboundKey g.idempotencyKey) ⊆
      (records.filter (counts req.peer grant.windowMs (env.now s))).map keyOf := by
    intro k hk
    obtain ⟨g, hg, rfl⟩ := List.mem_map.mp hk
    obtain ⟨hcall, hwin⟩ := List.mem_filter.mp hg
    obtain ⟨hfetch, hgpeer⟩ := List.mem_filter.mp hcall
    have hwin := of_decide_eq_true hwin
    exact counts_of_mem h hfetch ((of_decide_eq_true hgpeer).trans hpeer.symm) (by omega) hall
  have hnodup : (((callsTo peer m).filter fun g => f.createdAt ≤ g.createdAt + grant.windowMs).map
      fun g => outboundKey g.idempotencyKey).Nodup :=
    h.nodup_outboundKeys.sublist ((List.filter_sublist.trans List.filter_sublist).map _)
  have hle := (List.subperm_of_subset hnodup hcounted).length_le
  rw [List.length_map, List.length_map] at hle
  exact hs.snoc (by omega)

theorem callsTo_of_fetches {peer : Text} (h : fetches m' = fetches m) :
    callsTo peer m' = callsTo peer m := by
  rw [callsTo, h, callsTo]

theorem spent_run {peer : Text} {n w : Nat} (h : Sound home m) (hsteady : Steady env)
    (hgrant : GrantUnchanged net es peer n w) (hs : Spent n w (callsTo peer m)) :
    Spent n w (callsTo peer (run home env net m es)) := by
  induction es generalizing m with
  | nil => exact hs
  | cons e es ih =>
    have hstep := advance_step env net h e
    refine ih hstep.sound (fun req hreq => hgrant req (List.mem_cons_of_mem _ hreq)) ?_
    rcases hstep with hidle | ⟨-, -, req, f, rfl, hfetch, haff⟩
    · rw [callsTo_of_fetches hidle.fetches]
      exact hs
    · rw [callsTo, hfetch, List.filter_append, ← callsTo]
      by_cases hpeer : f.peer = peer
      · have hone : ([f].filter fun f => f.peer = peer) = [f] := by simpa using hpeer
        rw [hone]
        have hreq : req.peer = peer := haff.peer.symm.trans hpeer
        exact afforded_spent h hsteady hreq (hgrant req List.mem_cons_self hreq) haff hs
      · have hnone : ([f].filter fun f => f.peer = peer) = [] := by simpa using hpeer
        rw [hnone, List.append_nil]
        exact hs

/-! ## One effect -/

/-- **A cross-host forward has one effect at most.** For one idempotency key there is one call of
`fetchPeer` at most, with the fingerprint that is recorded when it is made, and no other is recorded
later; one request at most is passed on for one forwarding key; a record that left `pending` never
comes back to it; and of the keys that a peer was called for under an unchanged grant, with a steady
clock, no more than `max_requests` were reserved in one window. -/
theorem forwarded_once (home : Path) (env : Env) (net : Addresses) (fs : FS) (es : List Event) :
    ((fetches (run home env net (fresh fs) es)).map Fetch.idempotencyKey).Nodup ∧
    (∀ f disk, (Effect.fetch f, disk) ∈ (run home env net (fresh fs) es).sent →
      observe home disk (outboundKey f.idempotencyKey) = .ok (some f.record) ∧
      textOf (f.record.field "fingerprint") = some f.fingerprint) ∧
    (∀ f ∈ fetches (run home env net (fresh fs) es), ∀ r,
      observe home (run home env net (fresh fs) es).disk (outboundKey f.idempotencyKey) =
        .ok (some r) → textOf (r.field "fingerprint") = some f.fingerprint) ∧
    (passes (run home env net (fresh fs) es)).Nodup ∧
    (∀ later later' k, digestText k = true → Pending home (run home env net (fresh fs) es).disk k →
      ¬ Pending home (run home env net (fresh fs) (es ++ later)).disk k →
      ¬ Pending home (run home env net (fresh fs) (es ++ later ++ later')).disk k) ∧
    (Steady env → ∀ peer maxRequests windowMs,
      GrantUnchanged net es peer maxRequests windowMs → ∀ t,
        ((callsTo peer (run home env net (fresh fs) es)).filter fun f =>
          t ≤ f.createdAt ∧ f.createdAt ≤ t + windowMs).length ≤ maxRequests) := by
  have hsound := sound_run env net (sound_fresh home fs) es
  refine ⟨hsound.nodup_idempotencyKeys, fun f disk hf => ⟨(hsound.backed f disk hf).recorded,
    (hsound.backed f disk hf).fingerprint⟩, fun f hf r hobs => ?_, hsound.nodup_passes, ?_, ?_⟩
  · obtain ⟨disk, hmem⟩ := exists_of_mem_fetches hf
    rw [hsound.agrees_of_observe hf hobs "fingerprint" (by decide)]
    exact (hsound.backed f disk hmem).fingerprint
  · rintro later later' k hk ⟨r, hobs, -⟩ hnot
    have hsplit : ∀ a b, run home env net (fresh fs) (a ++ b) =
        run home env net (run home env net (fresh fs) a) b := fun a b => List.foldl_append ..
    have hocc := (moves_run env net hsound later).occupied hk
      (ne_none_of_observe hobs)
    rw [hsplit] at hnot ⊢
    rw [hsplit]
    exact (moves_run env net (sound_run env net hsound later) later').not_pending hk hocc hnot
  · intro hsteady peer n w hgrant t
    refine (spent_run (sound_fresh home fs) hsteady hgrant fun before f after heq => ?_).window t
    rw [callsTo, fetches, fresh] at heq
    exact absurd heq (by simp)

/-! ## When a call is made -/

/-- A grant of one request a second. -/
def oneASecond : Json :=
  .obj [("enabled", .bool true), ("operations", .arr [.str "inject"]), ("sessions", .arr [.str "s"]),
    ("hop_limit", .num 1), ("max_payload_bytes", .num 9), ("max_requests", .num 1),
    ("window_ms", .num 1000), ("timeout_ms", .num 100)]

def plainPeer : Json :=
  .obj [("transport", .str "http"), ("host", .str "h"), ("port", .num 1), ("token", .str "t"),
    ("forwarding", oneASecond)]

/-- A request with the idempotency key `cccccccccccccccc`. -/
def requestOf (c : Char) : SendRequest where
  peer := "p"
  sid := "s"
  body := .obj [("prompt", .str "x"), ("expected_epoch", .str "e"),
    ("idempotency_key", .str (List.replicate 16 c))]
  peers := some (.obj [("p", plainPeer)])

def anyAddress : Addresses := ⟨fun _ => 0, .ok⟩

/-- The `fsync` of the first reservation takes 900 milliseconds. -/
def slowSync : Env where
  fate := fun _ => .perform
  now := fun n => if n < 10 then 0 else if n < 28 then 900 else 1001
  random := fun _ => []

theorem admitted_requestOf {c : Char} (hc : c = 'a' ∨ c = 'b') :
    ∃ body origin, admitted anyAddress (requestOf c) = .ok (body, plainPeer, ⟨1, 1000, 100⟩, origin) := by
  rcases hc with rfl | rfl
  · exact ⟨_, _, rfl⟩
  · exact ⟨_, _, rfl⟩

set_option maxRecDepth 100000 in
theorem slowSync_times :
    (callsTo "p" (run ["h"] slowSync anyAddress (fresh (OrdMap.set OrdMap.empty ["h"] .dir))
      [.send (requestOf 'a'), .send (requestOf 'b')])).map Fetch.time = [900, 1001] := by
  decide +kernel

/-- **The window is one of reservations, not of calls**: with one request a second allowed, a slow
reservation puts two calls within a second. -/
theorem two_calls_in_one_window : ¬ ∀ (home : Path) (env : Env) (net : Addresses) (fs : FS)
    (es : List Event), Steady env → ∀ peer maxRequests windowMs,
      GrantUnchanged net es peer maxRequests windowMs → ∀ t,
        ((callsTo peer (run home env net (fresh fs) es)).filter fun f =>
          t ≤ f.time ∧ f.time < t + windowMs).length ≤ maxRequests := by
  intro h
  have hsteady : Steady slowSync := by
    intro s t hst
    simp only [slowSync]
    grind
  have hgrant : GrantUnchanged anyAddress [.send (requestOf 'a'), .send (requestOf 'b')] "p" 1
      1000 := by
    intro req hreq _ body p grant origin hadm
    have hreq : ∃ c, (c = 'a' ∨ c = 'b') ∧ req = requestOf c := by
      simpa using hreq
    obtain ⟨c, hc, rfl⟩ := hreq
    obtain ⟨body', origin', hadm'⟩ := admitted_requestOf hc
    rw [hadm'] at hadm
    cases hadm
    exact ⟨rfl, rfl⟩
  have hle := h ["h"] slowSync anyAddress (OrdMap.set OrdMap.empty ["h"] .dir) _ hsteady "p" 1 1000
    hgrant 500
  have htwo : 2 ≤ ((((callsTo "p" (run ["h"] slowSync anyAddress
      (fresh (OrdMap.set OrdMap.empty ["h"] .dir))
      [.send (requestOf 'a'), .send (requestOf 'b')])).map Fetch.time).filter fun t =>
        500 ≤ t ∧ t < 500 + 1000)).length := by
    rw [slowSync_times]
    decide
  rw [List.filter_map, List.length_map] at htwo
  have hsame : ∀ calls : List Fetch,
      (calls.filter ((fun t => decide (500 ≤ t ∧ t < 500 + 1000)) ∘ Fetch.time)).length =
        (calls.filter fun f => 500 ≤ f.time ∧ f.time < 500 + 1000).length := fun _ => rfl
  rw [hsame] at htwo
  exact absurd (Nat.le_trans htwo hle) (by decide)

end Telepty.Forward
