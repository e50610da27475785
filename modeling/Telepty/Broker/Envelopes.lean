import Telepty.Broker.Hub
import Telepty.Forward.Custody

/-!
# An envelope is written once at most

Envelopes are written for fresh reservations only, and those of a broadcast after all its children
are reserved. Nothing that happens later writes an envelope of a group that has a record: a request
for it that finds the group is answered from what is there.
-/

namespace Telepty.Broker

open Infra Infra.Prog Mailbox Principal Forward

variable {α : Type} {home : Path} {env : Env} {config : Config} {sign : Sign} {a b c m m' : Hub}
  {rest : List Json} {e : Event} {es : List Event}

/-! ## What was written -/

def envelopeOf : Effect → Option Envelope
  | .envelope e => some e
  | .reply .. => none

/-- The envelopes written so far. -/
def envelopes (m : Hub) : List Envelope := m.sent.filterMap fun s => envelopeOf s.1

/-- The receipt key of an envelope. -/
def Envelope.key (e : Envelope) : Text := keyOf e.record

/-- The group of the broadcast that an envelope is part of. -/
def Envelope.group (e : Envelope) : Option Text := textOf (e.record.field "group_receipt_id")

def reservations (m : Hub) : List Json := (envelopes m).map Envelope.record

/-- What was written is in custody, together with what is about to be, and no envelope was written
before its siblings were reserved. -/
structure Sound (home : Path) (rest : List Json) (m : Hub) : Prop where
  custody : Custody home (reservations m ++ rest) m.disk
  durable : ∀ e fs, (Effect.envelope e, fs) ∈ m.sent → ∀ k ∈ e.siblings, Durable home fs k
  whole : ∀ e fs, (Effect.envelope e, fs) ∈ m.sent → ∀ g, e.group = some g → e.key ∈ e.siblings

/-- How the hub may go on: the envelopes that were written are of groups that had no record. -/
structure Grown (home : Path) (rest : List Json) (a b : Hub) : Prop where
  sound : Sound home rest b
  moves : Moves home a.disk b.disk
  written : ∃ new, envelopes b = envelopes a ++ new ∧
    ∀ e ∈ new, ∀ g, e.group = some g → slot home a.disk g = none

theorem Grown.refl (h : Sound home rest a) : Grown home rest a a :=
  ⟨h, .refl _, [], (List.append_nil _).symm, fun _ h => absurd h List.not_mem_nil⟩

theorem envelopes_of_sent (h : b.sent = a.sent) : envelopes b = envelopes a := by
  rw [envelopes, h, envelopes]

theorem reservations_of_sent (h : b.sent = a.sent) : reservations b = reservations a := by
  rw [reservations, envelopes_of_sent h, reservations]

/-- A step that writes no envelope. -/
theorem Grown.still (h : Grown home rest a b) {rest' : List Json}
    (hc : Custody home (reservations b ++ rest') c.disk) (hm : Moves home b.disk c.disk)
    (hs : c.sent = b.sent) : Grown home rest' a c := by
  refine ⟨⟨reservations_of_sent hs ▸ hc, fun e fs he => h.sound.durable e fs (hs ▸ he),
    fun e fs he => h.sound.whole e fs (hs ▸ he)⟩, h.moves.trans hm, ?_⟩
  rw [envelopes_of_sent hs]
  exact h.written

theorem Grown.reads (h : Grown home rest a b) (hr : Reads home b c) : Grown home rest a c :=
  h.still (h.sound.custody.same hr.1) hr.1.moves hr.2.sent

theorem Grown.filled {k : Text} {bytes : Bytes} (h : Grown home rest a b)
    (hf : Filled home k bytes b c) : Grown home rest a c :=
  h.still (h.sound.custody.filled hf) hf.moves hf.rest.sent

/-- What is about to be written need not be. -/
theorem Grown.sublist {rest' : List Json} (h : Grown home rest a b) (hs : rest'.Sublist rest) :
    Grown home rest' a b :=
  h.still (h.sound.custody.sublist (hs.append_left _)) (.refl _) rfl

theorem Grown.mem (h : Grown home rest a b) (s : Memory) : Grown home rest a { b with mem := s } :=
  h.still h.sound.custody (.refl _) rfl

theorem Grown.reply (h : Grown home rest a b) (status : Nat) (body : Json) :
    Grown home rest a { b with sent := b.sent ++ [(.reply status body, b.disk)] } := by
  have henv : envelopes { b with sent := b.sent ++ [(.reply status body, b.disk)] }
      = envelopes b := by
    simp [envelopes, envelopeOf]
  refine ⟨⟨?_, fun e fs he => ?_, fun e fs he => ?_⟩, h.moves, henv.symm ▸ h.written⟩
  · rw [reservations, henv]
    exact h.sound.custody
  · rcases List.mem_append.mp he with he | he
    · exact h.sound.durable e fs he
    · cases List.mem_singleton.mp he
  · rcases List.mem_append.mp he with he | he
    · exact h.sound.whole e fs he
    · cases List.mem_singleton.mp he

/-- **An envelope is written** for a record that is in custody, over a disk that has its
siblings. -/
theorem Grown.envelope {e : Envelope} (h : Grown home (e.record :: rest) a b)
    (hsib : ∀ k ∈ e.siblings, Durable home b.disk k)
    (hgroup : ∀ g, e.group = some g → slot home a.disk g = none ∧ e.key ∈ e.siblings) :
    Grown home rest a { b with sent := b.sent ++ [(.envelope e, b.disk)] } := by
  have henv : envelopes { b with sent := b.sent ++ [(.envelope e, b.disk)] }
      = envelopes b ++ [e] := by
    simp [envelopes, envelopeOf]
  obtain ⟨new, hnew, hold⟩ := h.written
  refine ⟨⟨?_, fun e' fs he => ?_, fun e' fs he => ?_⟩, h.moves, new ++ [e], ?_, fun e' he => ?_⟩
  · rw [reservations, henv, List.map_append, List.append_assoc]
    exact h.sound.custody
  · rcases List.mem_append.mp he with he | he
    · exact h.sound.durable e' fs he
    · cases List.mem_singleton.mp he
      exact hsib
  · rcases List.mem_append.mp he with he | he
    · exact h.sound.whole e' fs he
    · cases List.mem_singleton.mp he
      exact fun g hg => (hgroup g hg).2
  · rw [henv, hnew, List.append_assoc]
  · rcases List.mem_append.mp he with he | he
    · exact hold e' he
    · obtain rfl := List.mem_singleton.mp he
      exact fun g hg => (hgroup g hg).1

/-- However a program ends, the hub has grown. -/
def grown (home : Path) (rest : List Json) (a : Hub) (α : Type) : Ensures Memory Effect α :=
  ⟨fun _ m' => Grown home rest a m', fun _ m' => Grown home rest a m',
    fun m' => Grown home rest a m'⟩

/-! ## Programs that only read -/

theorem wp_of_reads {x : Prog Memory Effect α} {Q : Ensures Memory Effect α}
    (hx : Keeps (Reads home) x) (h : Grown home rest a m)
    (hd : ∀ r m', Grown home rest a m' → Reads home m m' → Q.done r m')
    (hr : ∀ e m', Grown home rest a m' → Q.raised e m')
    (hc : ∀ m', Grown home rest a m' → Q.crashed m') : wp x Q m :=
  wp_mono (hx m) (fun r m' hm => hd r m' (h.reads hm) hm) (fun e m' hm => hr e m' (h.reads hm))
    fun m' hm => hc m' (h.reads hm)

theorem reads_get : Keeps (Reads home) (get : Prog Memory Effect Memory) := fun m => Reads.refl m

theorem reads_now : Keeps (Reads home) (now env : Prog Memory Effect Nat) := fun m => Reads.refl m

theorem reads_all : Keeps (Reads home) (all home env : Prog Memory Effect (List Json)) := fun _ =>
  wp_all (fun _ _ hm _ _ => hm) (fun _ _ hm => hm) fun _ hm => hm

theorem reads_allowance (source : Text) (limit : Limit) (count pending : Nat) :
    Keeps (Reads home) (admitUsage home env source limit count pending) := by
  refine reads_bind reads_all fun records => reads_bind reads_now fun time =>
    reads_bind reads_get fun memory => ?_
  split
  · exact reads_raise _
  · split
    · exact reads_raise _
    · split
      · exact reads_raise _
      · exact reads_pure _

theorem reads_childViews (group : Json) (children : List Json) :
    Keeps (Reads home) (childViews home env group children) := by
  induction children with
  | nil => exact reads_pure _
  | cons child children ih =>
    refine reads_bind (reads_read _) fun found => reads_bind reads_get fun memory => ?_
    split
    · exact reads_bind ih fun _ => reads_pure _
    · split
      · exact reads_bind ih fun _ => reads_pure _
      · exact reads_raise _

theorem reads_groupView (group : Json) : Keeps (Reads home) (groupView home env group) := by
  rw [groupView]
  split
  · split
    · exact reads_bind (reads_childViews _ _) fun _ => reads_pure _
    · exact reads_raise _
  · exact reads_raise _

theorem reads_originalFor (responder receipt : Text) :
    Keeps (Reads home) (originalFor home env responder receipt) := by
  refine reads_bind (reads_read _) fun found => ?_
  split
  · split
    · exact reads_pure _
    · exact reads_raise _
  · exact reads_raise _

theorem reads_groupQuery (source key : Text) (caller : Except Failure Caller) :
    Keeps (Reads home) (groupQuery home env config source key caller) := by
  refine reads_bind (reads_ofExcept _) fun _ => reads_bind (reads_ofExcept _) fun _ =>
    reads_bind (reads_read _) fun found => ?_
  split
  · split
    · exact reads_bind (reads_groupView _) fun _ => reads_pure _
    · exact reads_raise _
  · exact reads_raise _

theorem reads_receiptQuery (source key : Text) (caller : Except Failure Caller) :
    Keeps (Reads home) (receiptQuery home env source key caller) := by
  refine reads_bind (reads_ofExcept _) fun caller => ?_
  split
  · refine reads_bind (reads_read _) fun found => ?_
    split
    · split
      · exact reads_bind reads_get fun _ => reads_pure _
      · exact reads_raise _
    · exact reads_raise _
  · exact reads_raise _

theorem reads_replyContext (responder receipt : Text) (caller : Except Failure Caller) :
    Keeps (Reads home) (replyContext home env config responder receipt caller) :=
  reads_bind (reads_ofExcept _) fun _ => reads_bind (reads_ofExcept _) fun _ =>
    reads_bind (reads_originalFor _ _) fun _ => reads_bind reads_get fun _ => reads_pure _

/-! ## Ending a reservation -/

/-- An update that sets the result of a record. -/
structure Ending (update : Members) : Prop where
  results : ∀ k ∈ update.map Prod.fst, k ∈ resultFields
  state : ∀ r, recordState (spread r update) ≠ ("pending" : Text)

theorem ending_cons {state : Text} {tail : Members} (hstate : state ≠ ("pending" : Text))
    (hnone : ("state" : Text) ∉ tail.map Prod.fst)
    (hresults : ∀ k ∈ tail.map Prod.fst, k ∈ resultFields) :
    Ending (("state", .str state) :: tail) := by
  refine ⟨fun k hk => ?_, fun r => ?_⟩
  · rcases List.mem_cons.mp hk with rfl | hk
    · exact List.mem_cons_self
    · exact hresults k hk
  · rw [recordState_spread r state hnone]
    exact hstate

theorem ending_code {state code : Text} (hstate : state ≠ ("pending" : Text)) :
    Ending [("state", .str state), ("code", .str code)] :=
  ending_cons hstate (by simp only [List.map_cons, List.map_nil]; decide)
    (by simp only [List.map_cons, List.map_nil]; decide)

/-- Ending a reservation writes no envelope. -/
theorem wp_finish {record : Json} {update : Members} {Q : Ensures Memory Effect Json}
    (h : Grown home rest a m) (hu : Ending update)
    (hag : ∀ q ∈ reservations m ++ rest, keyOf q = keyOf (spread record update) →
      Agrees q (spread record update))
    (hd : ∀ next m', Grown home rest a m' → Moves home m.disk m'.disk → m'.sent = m.sent →
      Q.done next m')
    (hr : ∀ e m', Grown home rest a m' → m'.sent = m.sent → Q.raised e m')
    (hc : ∀ m', Grown home rest a m' → Q.crashed m') :
    wp (finish home env record update) Q m := by
  have hgrown : ∀ m', ReplacedOrNot home (spread record update) m m' →
      Grown home rest a m' ∧ Moves home m.disk m'.disk ∧ m'.sent = m.sent := by
    intro m' hw
    have hsent : m'.sent = m.sent := by
      rcases hw with hw | ⟨-, -, hw⟩
      · exact hw.2.sent
      · exact hw.rest.sent
    have hmoves := hw.moves (hu.state record)
    exact ⟨h.still (h.sound.custody.replacedOrNot hag hw) hmoves hsent, hmoves, hsent⟩
  rw [finish, wp_bind]
  refine wp_write_over (fun m' hw => ?_) (fun e m' hw => hr e m' (hgrown m' hw).1 (hgrown m' hw).2.2)
    fun m' hw => hc m' (hgrown m' hw).1
  obtain ⟨hg, hm, hs⟩ := hgrown m' hw
  dsimp only
  rw [wp_bind, wp_modify]
  exact hd _ _ (hg.mem _) hm hs

/-- What was read may be ended. -/
theorem agrees_of_read {record : Json} {update : Members} {k : Text} (h : Sound home rest m)
    (hu : Ending update) (hobs : observe home m.disk k = .ok (some record)) :
    ∀ q ∈ reservations m ++ rest, keyOf q = keyOf (spread record update) →
      Agrees q (spread record update) :=
  h.custody.agrees_of_observe hobs (agrees_spread hu.results)

theorem wp_finishWith {record : Json} {status : Nat} {update : Members}
    {Q : Ensures Memory Effect Answer} (h : Grown home rest a m) (hu : Ending update)
    (hag : ∀ q ∈ reservations m ++ rest, keyOf q = keyOf (spread record update) →
      Agrees q (spread record update))
    (hd : ∀ r m', Grown home rest a m' → Moves home m.disk m'.disk → Q.done r m')
    (hr : ∀ e m', Grown home rest a m' → Q.raised e m')
    (hc : ∀ m', Grown home rest a m' → Q.crashed m') :
    wp (finishWith home env record status update) Q m := by
  rw [finishWith, wp_bind]
  exact wp_finish h hu hag (fun next m' hg hm _ => hd _ m' hg hm) (fun e m' hg _ => hr e m' hg) hc

/-- A reservation in custody may be ended. -/
theorem wp_endOwn {record : Json} {status : Nat} {state code : Text} {own : List Json}
    {Q : Ensures Memory Effect Answer} (hstate : state ≠ ("pending" : Text))
    (h : Grown home own a m) (hmem : record ∈ reservations m ++ own) (hs : rest.Sublist own)
    (hd : ∀ r m', Grown home rest a m' → Moves home m.disk m'.disk → Q.done r m')
    (hr : ∀ e m', Grown home rest a m' → Q.raised e m')
    (hc : ∀ m', Grown home rest a m' → Q.crashed m') :
    wp (finishWith home env record status [("state", .str state), ("code", .str code)]) Q m := by
  have hu : Ending [("state", Json.str state), ("code", .str code)] := ending_code hstate
  exact wp_finishWith h hu (h.sound.custody.agrees_of_mem hmem (agrees_spread hu.results))
    (fun r m' hg hm => hd r m' (hg.sublist hs) hm) (fun e m' hg => hr e m' (hg.sublist hs))
    fun m' hg => hc m' (hg.sublist hs)

/-! ## Dispatching -/

/-- The record that an envelope may be written for. -/
def pendingOf (reserved : Reserved) : List Json := if reserved.fresh then [reserved.record] else []

/-- **A dispatch** writes one envelope at most, for a fresh reservation. -/
theorem wp_dispatch {operation : Operation} {reserved : Reserved} {siblings : List Text}
    {wires : Wires} {Q : Ensures Memory Effect Answer}
    (h : Grown home (pendingOf reserved ++ rest) a m)
    (hsib : ∀ k ∈ siblings, Durable home m.disk k)
    (hgroup : reserved.fresh = true → ∀ g,
      textOf (reserved.record.field "group_receipt_id") = some g →
        slot home a.disk g = none ∧ keyOf reserved.record ∈ siblings)
    (hd : ∀ r m', Grown home rest a m' → Moves home m.disk m'.disk → Q.done r m')
    (hr : ∀ e m', Grown home rest a m' → Q.raised e m')
    (hc : ∀ m', Grown home rest a m' → Q.crashed m') :
    wp (dispatch home env sign operation reserved siblings wires) Q m := by
  have hdrop : Grown home rest a m := h.sublist (List.sublist_append_right _ _)
  rw [dispatch, wp_bind, wp_get]
  dsimp only
  by_cases hfresh : reserved.fresh = true
  · rw [if_neg (not_not_intro hfresh)]
    rw [pendingOf, if_pos hfresh, List.singleton_append] at h
    have hmem : reserved.record ∈ reservations m ++ reserved.record :: rest :=
      List.mem_append_right _ List.mem_cons_self
    -- ends the reservation before an envelope is written for it
    have hend : ∀ status state code, state ≠ ("pending" : Text) →
        wp (finishWith home env reserved.record status
          [("state", .str state), ("code", .str code)]) Q m := fun status state code hstate =>
      wp_endOwn hstate h hmem (List.sublist_cons_self _ _) hd hr hc
    split
    · exact hend _ _ _ (by decide)
    · next challenge _ =>
      split
      · exact hend _ _ _ (by decide)
      · rw [wp_bind, wp_ofExcept]
        split
        · next proof _ =>
          dsimp only
          split
          · exact hend _ _ _ (by decide)
          · rw [wp_bind, wp_modify]
            dsimp only
            rw [wp_catching, wp_bind, writeFrame, wp_bind, wp_post]
            dsimp only
            have hwritten := (h.mem { m.mem with active := operation.key :: m.mem.active }).envelope
              (e := ⟨operation.target, frameOf (envelopeBody operation) proof, reserved.record,
                siblings⟩) hsib (hgroup hfresh)
            have hown : reserved.record ∈ reservations
                { m with
                  mem := { m.mem with active := operation.key :: m.mem.active }
                  sent := m.sent ++ [(.envelope ⟨operation.target,
                    frameOf (envelopeBody operation) proof, reserved.record, siblings⟩,
                      m.disk)] } ++ rest := by
              simp [reservations, envelopes, envelopeOf]
            split
            · exact wp_endOwn (by decide) hwritten hown (List.Sublist.refl _) hd hr hc
            · rw [wp_pure]
              dsimp only
              rw [wp_bind, wp_modify]
              dsimp only
              rw [wp_bind, wp_get]
              exact hd _ _ (hwritten.mem _) (.refl _)
        · next e _ => exact hr e m hdrop
  · rw [if_pos hfresh]
    exact hd _ m hdrop (.refl _)

/-! ## Reserving -/

/-- A fresh reservation has this record. -/
def RecordOf (key fingerprint : Text) (metadata : Members) (reserved : Reserved) : Prop :=
  reserved.fresh = true → ∃ time, reserved.record = pendingRecord key fingerprint time metadata

/-- **A reservation** is durable, and what may be written for it is in custody. -/
theorem wp_reserving {key fingerprint : Text} {metadata : Members} {Q : Ensures Memory Effect Reserved}
    (hnames : ("receipt_id" : Text) ∉ metadata.map Prod.fst) (h : Grown home rest a m)
    (hd : ∀ r m', Grown home (rest ++ pendingOf r) a m' → Moves home m.disk m'.disk →
      digestText key = true → Durable home m'.disk key → RecordOf key fingerprint metadata r →
      Q.done r m')
    (hr : ∀ e m', Grown home rest a m' → Q.raised e m')
    (hc : ∀ m', Grown home rest a m' → Q.crashed m') :
    wp (Forward.reserve home env key fingerprint metadata) Q m := by
  have hpart : ∀ m', (Reads home m m' ∨ ∃ b, Filled home key b m m') → Grown home rest a m' := by
    rintro m' (hr | ⟨b, hf⟩)
    · exact h.reads hr
    · exact h.filled hf
  refine wp_reserve hnames (fun m' record hf => ?_) (fun m' record hread hkey hobs _ => ?_)
    (fun e m' hm => hr e m' (hpart m' hm)) fun m' hm => hc m' (hpart m' hm)
  · obtain ⟨t, -, hrec⟩ := hf.record
    have hkey : keyOf record = key := by rw [hrec, keyOf_pendingRecord hnames]
    have hcustody := h.sound.custody.fresh hf hkey
    rw [List.append_assoc] at hcustody
    have hfull := hf.filled.full
    rw [← hkey] at hfull
    refine hd _ m' (h.still hcustody hf.filled.moves hf.filled.rest.sent) hf.filled.moves
      hf.filled.valid (hkey ▸ durable_of_full hfull) fun _ => ⟨_, hrec⟩
  · have hgrown : Grown home (rest ++ pendingOf ⟨record, false⟩) a m' := by
      rw [pendingOf, if_neg Bool.false_ne_true, List.append_nil]
      exact h.reads hread
    exact hd _ m' hgrown hread.1.moves hkey
      (hread.1.moves.durable hkey (durable_of_observe hobs)) nofun

def pendings (reserved : List (Operation × Reserved)) : List Json :=
  reserved.flatMap fun x => pendingOf x.2

/-- **All children are reserved**, and all of them are durable then. -/
theorem wp_reserveAll {operations : List Operation}
    {Q : Ensures Memory Effect (List (Operation × Reserved))}
    (hnames : ∀ op ∈ operations, ("receipt_id" : Text) ∉ op.metadata.map Prod.fst)
    (h : Grown home rest a m)
    (hd : ∀ l m', Grown home (rest ++ pendings l) a m' → Moves home m.disk m'.disk →
      (∀ op ∈ operations, digestText op.key = true ∧ Durable home m'.disk op.key) →
      (∀ x ∈ l, x.1 ∈ operations ∧ RecordOf x.1.key x.1.fingerprint x.1.metadata x.2) →
      Q.done l m')
    (hr : ∀ e m', Grown home rest a m' → Q.raised e m')
    (hc : ∀ m', Grown home rest a m' → Q.crashed m') :
    wp (reserveAll home env operations) Q m := by
  induction operations generalizing rest m Q with
  | nil =>
    refine hd [] m ?_ (.refl _) (fun _ h => absurd h List.not_mem_nil) fun _ h =>
      absurd h List.not_mem_nil
    rw [pendings, List.flatMap_nil, List.append_nil]
    exact h
  | cons op ops ih =>
    rw [reserveAll, wp_bind, reserve]
    refine wp_reserving (hnames op List.mem_cons_self) h (fun r m₁ h₁ hm₁ hkey hdur hrec => ?_) hr hc
    dsimp only
    rw [wp_bind]
    refine ih (fun op' hop => hnames op' (List.mem_cons_of_mem _ hop)) h₁
      (fun l m₂ h₂ hm₂ hall hmem => ?_)
      (fun e m' hg => hr e m' (hg.sublist (List.sublist_append_left _ _)))
      fun m' hg => hc m' (hg.sublist (List.sublist_append_left _ _))
    refine hd ((op, r) :: l) m₂ ?_ (hm₁.trans hm₂) (fun op' hop => ?_) fun x hx => ?_
    · rw [pendings, List.flatMap_cons, ← List.append_assoc]
      exact h₂
    · rcases List.mem_cons.mp hop with rfl | hop
      · exact ⟨hkey, hm₂.durable hkey hdur⟩
      · exact hall op' hop
    · rcases List.mem_cons.mp hx with rfl | hx
      · exact ⟨List.mem_cons_self, hrec⟩
      · exact ⟨List.mem_cons_of_mem _ (hmem x hx).1, (hmem x hx).2⟩

/-- **The envelopes of a broadcast** are written over a disk that has all its children. -/
theorem wp_dispatchAll {siblings : List Text} {wires : Wires}
    {l : List (Operation × Reserved)} {Q : Ensures Memory Effect Unit}
    (h : Grown home (pendings l) a m)
    (hsib : ∀ k ∈ siblings, digestText k = true ∧ Durable home m.disk k)
    (hgroup : ∀ x ∈ l, x.2.fresh = true → ∀ g,
      textOf (x.2.record.field "group_receipt_id") = some g →
        slot home a.disk g = none ∧ keyOf x.2.record ∈ siblings)
    (hd : ∀ m', Grown home [] a m' → Q.done () m')
    (hr : ∀ e m', Grown home [] a m' → Q.raised e m')
    (hc : ∀ m', Grown home [] a m' → Q.crashed m') :
    wp (dispatchAll home env sign siblings wires l) Q m := by
  induction l generalizing m with
  | nil => exact hd m h
  | cons x l ih =>
    obtain ⟨operation, reserved⟩ := x
    rw [dispatchAll, wp_bind]
    refine wp_dispatch h (fun k hk => (hsib k hk).2) (hgroup _ List.mem_cons_self)
      (fun _ m' hg hm => ?_) (fun e m' hg => hr e m' (hg.sublist (List.nil_sublist _)))
      fun m' hg => hc m' (hg.sublist (List.nil_sublist _))
    exact ih hg (fun k hk => ⟨(hsib k hk).1, hm.durable (hsib k hk).1 (hsib k hk).2⟩)
      fun x hx => hgroup x (List.mem_cons_of_mem _ hx)

/-! ## Plans -/

theorem plan_eq_ok {source target sid key : Text} {body : Json} {binding : Option Json}
    {extra : Members} {operation : Operation}
    (h : plan config source target sid body key binding extra = .ok operation) :
    ∃ payload, operation.metadata = metadataOf source target sid payload extra := by
  rw [plan] at h
  split at h
  · split at h
    · obtain ⟨payload, -, h⟩ := bind_eq_ok h
      split at h
      · cases h
      · obtain ⟨fingerprint, -, h⟩ := bind_eq_ok h
        obtain rfl := Except.ok.inj h
        exact ⟨payload, rfl⟩
    · cases h
  · cases h

/-- What the reservation of a child of a group adds. -/
def ChildOf (group : Text) (operation : Operation) : Prop :=
  ∃ source target sid payload,
    operation.metadata = metadataOf source target sid payload [("group_receipt_id", .str group)]

theorem ChildOf.names {group : Text} {operation : Operation} (h : ChildOf group operation) :
    ("receipt_id" : Text) ∉ operation.metadata.map Prod.fst := by
  obtain ⟨source, target, sid, payload, hm⟩ := h
  rw [hm]
  simp only [metadataOf, List.map_append, List.map_cons, List.map_nil]
  decide

theorem field_group (key fingerprint source target sid group : Text) (createdAt : Nat)
    (payload : Json) :
    (pendingRecord key fingerprint createdAt
      (metadataOf source target sid payload [("group_receipt_id", .str group)])).field
        "group_receipt_id" = some (.str group) := by
  rw [pendingRecord, metadataOf, spread, List.foldl_append, List.foldl_cons, List.foldl_nil]
  exact Json.field_set_self _ _ _

theorem planChild_eq_ok {source group : Text} {caller : Caller} {body target : Json}
    {index : Nat} {seen : List Text} {r : Text × Operation}
    (h : planChild config source group caller body index target seen = .ok r) :
    ChildOf group r.2 := by
  rw [planChild] at h
  split at h
  · dsimp only at h
    split at h
    · cases h
    · split at h
      · obtain ⟨operation, hplan, h⟩ := bind_eq_ok h
        obtain rfl := Except.ok.inj h
        obtain ⟨payload, hm⟩ := plan_eq_ok hplan
        exact ⟨_, _, _, payload, hm⟩
      · cases h
  · cases h

theorem planChildren_eq_ok {source group : Text} {caller : Caller} {body : Json} {index : Nat}
    {seen : List Text} {targets : List Json} {plans : List Operation}
    (h : planChildren config source group caller body index seen targets = .ok plans) :
    ∀ op ∈ plans, ChildOf group op := by
  induction targets generalizing index seen plans with
  | nil =>
    obtain rfl := Except.ok.inj h
    exact fun _ hop => absurd hop List.not_mem_nil
  | cons target targets ih =>
    obtain ⟨r, hchild, h⟩ := bind_eq_ok h
    obtain ⟨rest, hrest, h⟩ := bind_eq_ok h
    obtain rfl := Except.ok.inj h
    intro op hop
    rcases List.mem_cons.mp hop with rfl | hop
    · exact planChild_eq_ok hchild
    · exact ih hrest op hop

theorem planBroadcast_eq_ok {req : BroadcastRequest} {plans : List Operation} {fingerprint : Text}
    (h : planBroadcast config req = .ok (plans, fingerprint)) :
    ∀ op ∈ plans, ChildOf (groupKey req.source (req.body.textField "idempotency_key")) op := by
  obtain ⟨caller, -, h⟩ := bind_eq_ok h
  obtain ⟨-, -, h⟩ := bind_eq_ok h
  obtain ⟨targets, -, h⟩ := bind_eq_ok h
  obtain ⟨plans', hplans, h⟩ := bind_eq_ok h
  obtain ⟨fp, -, h⟩ := bind_eq_ok h
  obtain ⟨rfl, -⟩ := Prod.mk.inj (Except.ok.inj h)
  exact planChildren_eq_ok hplans

/-! ## Routes that write envelopes -/

theorem grown_commitBroadcast {req : BroadcastRequest} {group fingerprint : Text} {limit : Limit}
    {plans : List Operation} (h : Grown home [] a m) (hnone : slot home a.disk group = none)
    (hplans : ∀ op ∈ plans, ChildOf group op) :
    wp (commitBroadcast home env sign req group fingerprint limit plans)
      (grown home [] a Answer) m := by
  have hnames : ("receipt_id" : Text) ∉ (groupMetadata req.source plans).map Prod.fst := by
    simp only [groupMetadata, List.map_cons, List.map_nil]
    decide
  rw [commitBroadcast, wp_bind]
  refine wp_of_reads (reads_allowance _ _ _ _) h (fun _ m₁ h₁ _ => ?_) (fun _ _ hg => hg) fun _ hg => hg
  dsimp only
  rw [wp_bind, wp_now]
  dsimp only
  split
  · exact h₁
  · rw [wp_bind]
    refine wp_reserving hnames h₁ (fun r m₂ h₂ _ _ _ _ => ?_) (fun _ _ hg => hg) fun _ hg => hg
    have h₂' : Grown home [] a m₂ := h₂.sublist (List.nil_sublist _)
    dsimp only
    rw [wp_bind]
    refine wp_reserveAll (fun op hop => (hplans op hop).names) h₂' (fun l m₃ h₃ _ hdur hmem => ?_)
      (fun _ _ hg => hg) fun _ hg => hg
    dsimp only
    rw [wp_bind]
    refine wp_dispatchAll h₃ (fun k hk => ?_) (fun x hx hfresh g hg => ?_) (fun m₄ h₄ => ?_)
      (fun _ _ hg => hg) fun _ hg => hg
    · obtain ⟨op, hop, rfl⟩ := List.mem_map.mp hk
      exact hdur op hop
    · obtain ⟨hop, hrec⟩ := hmem x hx
      obtain ⟨time, hrec⟩ := hrec hfresh
      obtain ⟨source, target, sid, payload, hm⟩ := hplans x.1 hop
      rw [hrec, hm, field_group] at hg
      obtain rfl := Option.some.inj hg
      refine ⟨hnone, List.mem_map.mpr ⟨x.1, hop, ?_⟩⟩
      rw [hrec, keyOf_pendingRecord (hplans x.1 hop).names]
    · dsimp only
      rw [wp_bind]
      exact wp_of_reads (reads_groupView _) h₄ (fun _ _ hg _ => hg) (fun _ _ hg => hg) fun _ hg => hg

theorem grown_broadcast (h : Sound home [] m) (req : BroadcastRequest) :
    wp (broadcast home env config sign req) (grown home [] m Answer) m := by
  have hrefl : Grown home [] m m := .refl h
  rw [broadcast, wp_bind, wp_ofExcept]
  cases hplan : planBroadcast config req with
  | error e => exact hrefl
  | ok r =>
    obtain ⟨plans, fingerprint⟩ := r
    dsimp only
    rw [wp_bind]
    refine wp_read (fun m₁ found hm hkey hfound => ?_) (fun _ _ hm => hrefl.reads hm)
      fun _ hm => hrefl.reads hm
    have h₁ : Grown home [] m m₁ := hrefl.reads hm
    dsimp only
    cases found with
    | some existing =>
      dsimp only
      split
      · rw [wp_bind]
        exact wp_of_reads (reads_groupView _) h₁ (fun _ _ hg _ => hg) (fun _ _ hg => hg)
          fun _ hg => hg
      · exact h₁
    | none =>
      dsimp only
      split
      · exact h₁
      · exact grown_commitBroadcast h₁ (slot_of_observe_none hfound) (planBroadcast_eq_ok hplan)

/-- The extra members of a reservation that is no part of a broadcast. -/
def Single (extra : Members) : Prop :=
  ("receipt_id" : Text) ∉ extra.map Prod.fst ∧ ("group_receipt_id" : Text) ∉ extra.map Prod.fst

theorem Single.metadata {source target sid : Text} {payload : Json} {extra : Members} {k : Text}
    (hk : k = "receipt_id" ∨ k = "group_receipt_id") (h : k ∉ extra.map Prod.fst) :
    k ∉ (metadataOf source target sid payload extra).map Prod.fst := by
  rw [metadataOf, List.map_append, List.mem_append, not_or]
  refine ⟨?_, h⟩
  simp only [List.map_cons, List.map_nil]
  rcases hk with rfl | rfl <;> decide

theorem grown_inject {operation : Operation} {wires : Wires}
    {source target sid : Text} {payload : Json} {extra : Members} (h : Grown home [] a m)
    (hm : operation.metadata = metadataOf source target sid payload extra) (hs : Single extra) :
    wp (inject home env sign operation wires) (grown home [] a Answer) m := by
  have hnames : ("receipt_id" : Text) ∉ operation.metadata.map Prod.fst :=
    hm ▸ Single.metadata (.inl rfl) hs.1
  have hgroup : ("group_receipt_id" : Text) ∉ operation.metadata.map Prod.fst :=
    hm ▸ Single.metadata (.inr rfl) hs.2
  -- whatever the reading of the key came to
  have hrest : ∀ m₁, Grown home [] a m₁ → wp (do
      let reserved ← reserve home env operation
      dispatch home env sign operation reserved [] wires) (grown home [] a Answer) m₁ := by
    intro m₁ h₁
    rw [wp_bind, reserve]
    refine wp_reserving hnames h₁ (fun r m₂ h₂ _ _ _ hrec => ?_) (fun _ _ hg => hg) fun _ hg => hg
    dsimp only
    rw [List.nil_append] at h₂
    have h₂' : Grown home (pendingOf r ++ []) a m₂ := by rwa [List.append_nil]
    refine wp_dispatch h₂' (fun k hk => absurd hk List.not_mem_nil)
      (fun hfresh g hg => ?_) (fun _ _ hg _ => hg) (fun _ _ hg => hg) fun _ hg => hg
    obtain ⟨time, hrec⟩ := hrec hfresh
    rw [hrec, field_pendingRecord hgroup] at hg
    cases hg
  rw [inject, wp_bind]
  refine wp_of_reads (reads_read _) h (fun found m₁ h₁ _ => ?_) (fun _ _ hg => hg) fun _ hg => hg
  dsimp only
  cases found with
  | some record => exact hrest m₁ h₁
  | none =>
    dsimp only
    rw [wp_bind]
    exact wp_of_reads (reads_allowance _ _ _ _) h₁ (fun _ m₂ h₂ _ => hrest m₂ h₂) (fun _ _ hg => hg)
      fun _ hg => hg

theorem grown_injectRoute (h : Sound home [] m) (req : InjectRequest) :
    wp (injectRoute home env config sign req) (grown home [] m Answer) m := by
  have hrefl : Grown home [] m m := .refl h
  rw [injectRoute, wp_bind, wp_ofExcept]
  split
  · next caller _ =>
    dsimp only
    rw [wp_bind, wp_ofExcept]
    split
    · dsimp only
      rw [wp_bind, wp_ofExcept]
      split
      · next operation hplan =>
        obtain ⟨payload, hm⟩ := plan_eq_ok hplan
        exact grown_inject hrefl hm ⟨List.not_mem_nil, List.not_mem_nil⟩
      · exact hrefl
    · exact hrefl
  · exact hrefl

theorem names_memberIfAny (name : Text) (value : Option Json) :
    ∀ k ∈ (memberIfAny name value).map Prod.fst, k = name := by
  intro k hk
  rw [memberIfAny, List.map_map] at hk
  obtain ⟨v, -, rfl⟩ := List.mem_map.mp hk
  rfl

theorem grown_replyRoute (h : Sound home [] m) (req : ReplyRequest) :
    wp (replyRoute home env config sign req) (grown home [] m Answer) m := by
  have hrefl : Grown home [] m m := .refl h
  rw [replyRoute]
  split
  · rw [wp_bind, wp_ofExcept]
    split
    · dsimp only
      rw [wp_bind, wp_ofExcept]
      split
      · dsimp only
        rw [wp_bind]
        refine wp_of_reads (reads_originalFor _ _) hrefl (fun original m₁ h₁ _ => ?_)
          (fun _ _ hg => hg) fun _ hg => hg
        dsimp only
        split
        · rw [wp_bind, wp_ofExcept]
          split
          · next operation hplan =>
            obtain ⟨payload, hm⟩ := plan_eq_ok hplan
            refine grown_inject h₁ hm ⟨fun hk => ?_, fun hk => ?_⟩
            · rcases List.mem_cons.mp hk with hk | hk
              · have hk : ("receipt_id" : Text) = "in_reply_to" := hk
                exact absurd hk (by decide)
              · exact absurd (names_memberIfAny _ _ _ hk) (by decide)
            · rcases List.mem_cons.mp hk with hk | hk
              · have hk : ("group_receipt_id" : Text) = "in_reply_to" := hk
                exact absurd hk (by decide)
              · exact absurd (names_memberIfAny _ _ _ hk) (by decide)
          · exact h₁
        · exact h₁
      · exact hrefl
    · exact hrefl
  · exact hrefl

/-! ## Routes that end reservations -/

theorem ending_lost (code : Text) : Ending [("state", .str "outcome_unknown"), ("code", .str code)] :=
  ending_code (by decide)

theorem ending_resultUpdate {body : Json} (hvalid : resultValid body = true) (fingerprint : Text) :
    Ending (resultUpdate body fingerprint) := by
  have hstate : body.textField "state" ≠ ("pending" : Text) := by
    simp only [resultValid, Bool.and_eq_true] at hvalid
    have hin := hvalid.1.1.2
    rw [textWhere] at hin
    intro hpending
    rw [Json.textField, ← textOf] at hpending
    cases htext : textOf (body.field "state") with
    | none =>
      rw [htext] at hin
      cases hin
    | some t =>
      rw [htext] at hin hpending
      obtain rfl : t = ("pending" : Text) := hpending
      exact absurd hin (by decide)
  rw [resultUpdate]
  split
  · exact ending_cons hstate (by simp only [List.map_cons, List.map_nil]; decide)
      (by simp only [List.map_cons, List.map_nil]; decide)
  · exact ending_cons hstate (by simp only [List.map_cons, List.map_nil]; decide)
      (by simp only [List.map_cons, List.map_nil]; decide)

theorem grown_result (h : Sound home [] m) (node key : Text) (body : Json)
    (caller : Except Failure Caller) :
    wp (result home env node key body caller) (grown home [] m Answer) m := by
  have hrefl : Grown home [] m m := .refl h
  rw [result, wp_bind, wp_ofExcept]
  split
  · dsimp only
    split
    · rw [wp_bind]
      refine wp_read (fun m₁ found hm hkey hfound => ?_) (fun _ _ hm => hrefl.reads hm)
        fun _ hm => hrefl.reads hm
      have h₁ : Grown home [] m m₁ := hrefl.reads hm
      dsimp only
      cases found with
      | none => exact h₁
      | some record =>
        dsimp only
        split
        · exact h₁
        · split
          · next hvalid =>
            rw [wp_bind, wp_ofExcept]
            split
            · next fingerprint _ =>
              dsimp only
              split
              · have hu := ending_resultUpdate hvalid fingerprint
                have hobs : observe home m₁.disk key = .ok (some record) := by
                  rw [observe_congr (hm.1 key hkey)]
                  exact hfound
                exact wp_finishWith h₁ hu (agrees_of_read h₁.sound hu hobs) (fun _ _ hg _ => hg)
                  (fun _ _ hg => hg) fun _ hg => hg
              · split
                · rw [wp_bind, wp_get]
                  exact h₁
                · exact h₁
            · exact h₁
          · exact h₁
    · exact hrefl
  · exact hrefl

theorem grown_timeout (h : Sound home [] m) (key : Text) :
    wp (timeout home env key) (grown home [] m Unit) m := by
  have hrefl : Grown home [] m m := .refl h
  rw [timeout, wp_bind, wp_get]
  dsimp only
  split
  · rw [wp_bind, wp_modify]
    dsimp only
    have h₀ := hrefl.mem { m.mem with timers := m.mem.timers.erase key }
    have hforget : ∀ (e : Failure) m', Grown home [] m m' →
        wp (modify fun s => { s with active := s.active.erase key } : Prog Memory Effect Unit)
          (grown home [] m Unit) m' := fun _ m' hg => hg.mem _
    rw [wp_catching, wp_bind]
    refine wp_read (fun m₁ found hm hkey hfound => ?_) (fun e m' hm => hforget e m' (h₀.reads hm))
      fun _ hm => h₀.reads hm
    have h₁ : Grown home [] m m₁ := h₀.reads hm
    dsimp only
    cases found with
    | none => exact h₁
    | some current =>
      dsimp only
      split
      · rw [wp_bind]
        have hobs : observe home m₁.disk key = .ok (some current) := by
          rw [observe_congr (hm.1 key hkey)]
          exact hfound
        exact wp_finish h₁ (ending_lost _) (agrees_of_read h₁.sound (ending_lost _) hobs)
          (fun _ _ hg _ _ => hg) (fun e m' hg _ => hforget e m' hg) fun _ hg => hg
      · exact h₁
  · exact hrefl

theorem grown_loseAll {node : Text} {records : List Json} (h : Grown home [] a m)
    (hag : ∀ record ∈ records, ∀ update, Ending update → ∀ q ∈ reservations m ++ [],
      keyOf q = keyOf (spread record update) → Agrees q (spread record update)) :
    wp (loseAll home env node records) (grown home [] a Unit) m := by
  induction records generalizing m with
  | nil => exact h
  | cons record records ih =>
    have hmore : ∀ m', Grown home [] a m' → m'.sent = m.sent →
        wp (loseAll home env node records) (grown home [] a Unit) m' := by
      intro m' hg hs
      refine ih hg fun r hr update hu => ?_
      rw [reservations_of_sent hs]
      exact hag r (List.mem_cons_of_mem _ hr) update hu
    rw [loseAll, wp_bind, wp_get]
    dsimp only
    split
    · rw [wp_bind, wp_catching, wp_bind]
      exact wp_finish h (ending_lost _) (hag record List.mem_cons_self _ (ending_lost _))
        (fun _ m' hg _ hs => hmore m' hg hs) (fun e m' hg hs => hmore _ (hg.mem _) hs) fun _ hg => hg
    · exact hmore m h rfl

theorem grown_closeStream (h : Sound home [] m) (node : Text) :
    wp (closeStream home env node) (grown home [] m Unit) m := by
  have h₀ := (Grown.refl h).mem { m.mem with streams := m.mem.streams.delete node }
  rw [closeStream, wp_bind, wp_modify]
  dsimp only
  rw [wp_bind, wp_catching, wp_bind]
  refine wp_all (fun m₁ records hm _ hfrom => ?_) (fun _ _ hm => h₀.reads hm) fun _ hm => h₀.reads hm
  refine grown_loseAll (h₀.reads hm) fun record hr update hu => ?_
  obtain ⟨k, hk, hobs⟩ := hfrom record hr
  rw [reservations_of_sent hm.2.sent]
  exact agrees_of_read h₀.sound hu hobs

/-! ## Runs -/

theorem grown_brokerError {e : Failure} (h : Grown home [] a m) :
    wp (post (brokerError e)) (grown home [] a Unit) m := by
  rw [wp_post, brokerError]
  split
  · exact h.reply _ _
  · exact h.reply _ _

theorem grown_respond {route : Prog Memory Effect Answer} (h : wp route (grown home [] a Answer) m) :
    wp (respond route) (grown home [] a Unit) m := by
  rw [respond, wp_catching, wp_bind]
  exact wp_mono h (fun _ _ hg => hg.reply _ _) (fun _ _ hg => grown_brokerError hg) fun _ hg => hg

theorem grown_openStream (h : Sound home [] m) (node challenge : Text)
    (caller : Except Failure Caller) :
    wp (openStream config node challenge caller) (grown home [] m Unit) m := by
  have hrefl : Grown home [] m m := .refl h
  rw [openStream, wp_bind, wp_ofExcept]
  split
  · dsimp only
    rw [wp_bind, wp_get]
    dsimp only
    split
    · split
      · exact hrefl
      · exact hrefl.mem _
    · exact hrefl
  · exact hrefl

theorem grown_handle (env : Env) (config : Config) (sign : Sign) (h : Sound home [] m) (e : Event) :
    wp (handle home env config sign e) (grown home [] m Unit) m := by
  have hrefl : Grown home [] m m := .refl h
  have hquery : ∀ {route : Prog Memory Effect Answer}, Keeps (Reads home) route →
      wp (respond route) (grown home [] m Unit) m := fun hroute =>
    grown_respond (wp_of_reads hroute hrefl (fun _ _ hg _ => hg) (fun _ _ hg => hg) fun _ hg => hg)
  cases e with
  | inject req => exact grown_respond (grown_injectRoute h req)
  | reply req => exact grown_respond (grown_replyRoute h req)
  | broadcast req => exact grown_respond (grown_broadcast h req)
  | groupQuery source key caller => exact hquery (reads_groupQuery source key caller)
  | receiptQuery source key caller => exact hquery (reads_receiptQuery source key caller)
  | replyContext responder receipt caller => exact hquery (reads_replyContext responder receipt caller)
  | result node key body caller => exact grown_respond (grown_result h node key body caller)
  | openStream node challenge caller =>
    rw [handle, wp_catching]
    exact wp_mono (grown_openStream h node challenge caller) (fun _ _ hg => hg)
      (fun _ _ hg => grown_brokerError hg) fun _ hg => hg
  | closeStream node => exact grown_closeStream h node
  | timeout key => exact grown_timeout h key
  | restart => exact hrefl.mem _

theorem grown_step (env : Env) (config : Config) (sign : Sign) (h : Sound home [] m) (e : Event) :
    Grown home [] m (step home env config sign m e) := by
  have hw := grown_handle env config sign h e
  unfold wp at hw
  unfold step
  split
  · next heq => rw [heq] at hw; exact hw
  · next heq => rw [heq] at hw; exact hw
  · next heq => rw [heq] at hw; exact Grown.mem hw _

theorem sound_run (env : Env) (config : Config) (sign : Sign) (h : Sound home [] m)
    (es : List Event) :
    Sound home [] (run home env config sign m es) := by
  induction es generalizing m with
  | nil => exact h
  | cons e es ih => exact ih (grown_step env config sign h e).sound

/-- The envelopes of a group. -/
def envelopesOf (group : Text) (m : Hub) : List Envelope :=
  (envelopes m).filter fun e => e.group = some group

/-- **A group that has a record gets no more envelopes.** -/
theorem envelopesOf_run {group : Text} (h : Sound home [] m) (hk : digestText group = true)
    (hocc : slot home m.disk group ≠ none) (es : List Event) :
    envelopesOf group (run home env config sign m es) = envelopesOf group m := by
  induction es generalizing m with
  | nil => rfl
  | cons e es ih =>
    have hstep := grown_step env config sign h e
    obtain ⟨new, hnew, hgroup⟩ := hstep.written
    have hnone : new.filter (fun e => e.group = some group) = [] := by
      refine List.filter_eq_nil_iff.mpr fun e he heq => hocc ?_
      exact hgroup e he group (of_decide_eq_true heq)
    have hsame : envelopesOf group (step home env config sign m e) = envelopesOf group m := by
      rw [envelopesOf, hnew, List.filter_append, hnone, List.append_nil, envelopesOf]
    exact (ih hstep.sound (hstep.moves.occupied hk hocc)).trans hsame

theorem sound_fresh (home : Path) (fs : FS) : Sound home [] (fresh fs) :=
  ⟨.nil fs, fun _ _ h => absurd h List.not_mem_nil, fun _ _ h => absurd h List.not_mem_nil⟩

end Telepty.Broker
